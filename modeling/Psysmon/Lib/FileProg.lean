import Psysmon.Lib.Run

/-!
# Psysmon.Lib.FileProg — programs that write files, run side by side

A `FileProg` is a sequence of calls on the files of a directory tree, with a branch for the success and one for the
failure of each.  `FileSystem` is a set of such programs over one tree: in any order, each of them makes its next call,
which succeeds or fails, or is killed.

`FileProg.Disciplined temp A own p` is a proof obligation on the text of `p` alone: it writes to no file but a temporary one
of its own making, it renames that only once its content is known, and only where `A` allows this content, and it does
not return before it has tried to remove it.  `own` is the temporary file it has, with its content as far as known.

* `FileProg.Disciplined.step`: all that a disciplined program can do (`Acted`).
* `FileSystem.published`: whatever the order, the failures and the kills, a file outside the temporary ones holds what
  was last renamed onto it, all of it, or what it held at first.
* `FileSystem.delivered`: a program that must rename onto a file before it returns has done so once it has returned.
* `FileSystem.kept`: a file that is there at first, and that is replaced only after a test has not found it, stays.
* `FileSystem.tidy`: unless a removal fails or a program is killed, no temporary file stays behind.
-/

namespace Psysmon.Lib

/-- A file: its content and its permission bits. -/
structure File (B : Type*) where
  bytes : B
  mode : ℕ

/-- Programs over the files of a directory tree. -/
inductive FileProg (N B : Type*)
  /-- Returns, or raises. -/
  | ret (ok : Bool)
  /-- A new file, under a name that `fits`. -/
  | mkstemp (fits : N → Bool) (ok : N → FileProg N B) (err : FileProg N B)
  | write (n : N) (b : B) (ok err : FileProg N B)
  | chmod (n : N) (mode : ℕ) (ok err : FileProg N B)
  | replace (src dst : N) (ok err : FileProg N B)
  | remove (n : N) (ok err : FileProg N B)
  /-- `os.path.exists`. -/
  | test (n : N) (yes no : FileProg N B)

/-- How a call ends. -/
inductive Outcome (N B : Type*)
  | done
  /-- `mkstemp` has made the file `n`. -/
  | made (n : N)
  /-- The call fails; a write leaves the content `b` behind. -/
  | failed (b : B)

/-- The mode of a file that `mkstemp` makes. -/
def privateMode : ℕ := 0o600

variable {N B ι : Type*}

/-- Directory trees: the files by their paths. -/
abbrev Tree (N B : Type*) := N → Option (File B)

namespace FileProg

/-- The program has returned or raised. -/
def returned : FileProg N B → Bool
  | .ret _ => true
  | _ => false

/-- The program does not return before it has renamed a file onto `n`; it may raise. -/
def Delivers (n : N) : FileProg N B → Prop
  | .ret ok => ok = false
  | .mkstemp _ ok err => (∀ m, (ok m).Delivers n) ∧ err.Delivers n
  | .write _ _ ok err | .chmod _ _ ok err | .remove _ ok err => ok.Delivers n ∧ err.Delivers n
  | .replace _ dst ok err => (dst = n ∨ ok.Delivers n) ∧ err.Delivers n
  | .test _ yes no => yes.Delivers n ∧ no.Delivers n

/-- The program renames no file onto `n`, unless a test has just not found it. -/
def Keeps (n : N) : FileProg N B → Prop
  | .ret _ => True
  | .mkstemp _ ok err => (∀ m, (ok m).Keeps n) ∧ err.Keeps n
  | .write _ _ ok err | .chmod _ _ ok err | .remove _ ok err => ok.Keeps n ∧ err.Keeps n
  | .replace _ dst ok err => dst ≠ n ∧ ok.Keeps n ∧ err.Keeps n
  | .test m yes no => yes.Keeps n ∧ (m = n ∨ no.Keeps n)

/-- The branch that a call takes, in the tree `d`, with the file that it publishes. -/
inductive Next (d : Tree N B) : FileProg N B → FileProg N B → List (N × File B) → Prop
  | made {fits : N → Bool} {ok : N → FileProg N B} {err : FileProg N B} (n : N) : Next d (.mkstemp fits ok err) (ok n) []
  | notMade {fits : N → Bool} {ok : N → FileProg N B} {err : FileProg N B} : Next d (.mkstemp fits ok err) err []
  | written {n : N} {b : B} {ok err : FileProg N B} : Next d (.write n b ok err) ok []
  | notWritten {n : N} {b : B} {ok err : FileProg N B} : Next d (.write n b ok err) err []
  | changed {n : N} {m : ℕ} {ok err : FileProg N B} : Next d (.chmod n m ok err) ok []
  | notChanged {n : N} {m : ℕ} {ok err : FileProg N B} : Next d (.chmod n m ok err) err []
  | replaced {src dst : N} {ok err : FileProg N B} (f : File B) : Next d (.replace src dst ok err) ok [(dst, f)]
  | notReplaced {src dst : N} {ok err : FileProg N B} : Next d (.replace src dst ok err) err []
  | removed {n : N} {ok err : FileProg N B} : Next d (.remove n ok err) ok []
  | notRemoved {n : N} {ok err : FileProg N B} : Next d (.remove n ok err) err []
  | found {n : N} {yes no : FileProg N B} (h : d n ≠ none) : Next d (.test n yes no) yes []
  | missing {n : N} {yes no : FileProg N B} (h : d n = none) : Next d (.test n yes no) no []

variable {d : Tree N B} {p p' : FileProg N B} {tr : List (N × File B)}

theorem Next.delivers {n : N} (h : p.Next d p' tr) (hp : p.Delivers n) : p'.Delivers n ∨ ∃ f, (n, f) ∈ tr := by
  cases h with
  | made m => exact .inl (hp.1 m)
  | notMade => exact .inl hp.2
  | written | changed | removed | found => exact .inl hp.1
  | notWritten | notChanged | notRemoved | notReplaced | missing => exact .inl hp.2
  | replaced f =>
    rcases hp.1 with rfl | hok
    · exact .inr ⟨f, List.mem_singleton.mpr rfl⟩
    · exact .inl hok

theorem Next.keeps {n : N} (h : p.Next d p' tr) (hp : p.Keeps n) (hd : d n ≠ none) :
    p'.Keeps n ∧ ∀ q ∈ tr, q.1 ≠ n := by
  have hnil : ∀ q ∈ ([] : List (N × File B)), q.1 ≠ n := fun q hq => absurd hq List.not_mem_nil
  cases h with
  | made m => exact ⟨hp.1 m, hnil⟩
  | notMade => exact ⟨hp.2, hnil⟩
  | written | changed | removed | found => exact ⟨hp.1, hnil⟩
  | notWritten | notChanged | notRemoved => exact ⟨hp.2, hnil⟩
  | replaced f =>
    refine ⟨hp.2.1, fun q hq => ?_⟩
    rw [List.mem_singleton.mp hq]
    exact hp.1
  | notReplaced => exact ⟨hp.2.2, hnil⟩
  | missing h =>
    rcases hp.2 with rfl | hno
    · exact absurd h hd
    · exact ⟨hno, hnil⟩

end FileProg

variable [DecidableEq N]

/-- The files that a sequence of renames leaves. -/
def shown (d : Tree N B) (tr : List (N × File B)) : Tree N B :=
  tr.foldl (fun d q => Function.update d q.1 (some q.2)) d

theorem shown_append (d : Tree N B) (tr tr' : List (N × File B)) : shown d (tr ++ tr') = shown (shown d tr) tr' :=
  List.foldl_append

theorem shown_congr {n : N} : ∀ (tr : List (N × File B)) {d e : Tree N B}, d n = e n → shown d tr n = shown e tr n
  | [], _, _, h => h
  | q :: tr, d, e, h => by
    refine shown_congr tr (d := Function.update d q.1 (some q.2)) (e := Function.update e q.1 (some q.2)) ?_
    by_cases hq : n = q.1
    · rw [hq, Function.update_self, Function.update_self]
    · rw [Function.update_of_ne hq, Function.update_of_ne hq, h]

/-- A file is as at first, or what was last renamed onto it. -/
theorem shown_cases (d : Tree N B) (tr : List (N × File B)) (n : N) :
    (shown d tr n = d n ∧ ∀ q ∈ tr, q.1 ≠ n) ∨
      ∃ x f z, tr = x ++ (n, f) :: z ∧ (∀ q ∈ z, q.1 ≠ n) ∧ shown d tr n = some f := by
  induction tr using List.reverseRecOn with
  | nil => exact .inl ⟨rfl, fun q hq => absurd hq List.not_mem_nil⟩
  | append_singleton tr q ih =>
    have hlast : shown d (tr ++ [q]) = Function.update (shown d tr) q.1 (some q.2) := shown_append d tr [q]
    rw [hlast]
    by_cases hq : q.1 = n
    · subst hq
      exact .inr ⟨tr, q.2, [], rfl, fun q hq => absurd hq List.not_mem_nil, Function.update_self ..⟩
    · rw [Function.update_of_ne (Ne.symm hq)]
      rcases ih with ⟨hd, hno⟩ | ⟨x, f, z, rfl, hz, hf⟩
      · refine .inl ⟨hd, fun q' hq' => ?_⟩
        rcases List.mem_append.mp hq' with hq' | hq'
        · exact hno q' hq'
        · rw [List.mem_singleton.mp hq']
          exact hq
      · refine .inr ⟨x, f, z ++ [q], by simp, fun q' hq' => ?_, hf⟩
        rcases List.mem_append.mp hq' with hq' | hq'
        · exact hz q' hq'
        · rw [List.mem_singleton.mp hq']
          exact hq

theorem shown_of_ne {d : Tree N B} {tr : List (N × File B)} {n : N} (h : ∀ q ∈ tr, q.1 ≠ n) : shown d tr n = d n := by
  rcases shown_cases d tr n with ⟨hd, -⟩ | ⟨x, f, z, rfl, -, -⟩
  · exact hd
  · exact absurd rfl (h (n, f) (List.mem_append_right x List.mem_cons_self))

variable [Inhabited B]

/-- One call, with the file that it puts in the place of another one, if any. -/
def FileProg.step (d : Tree N B) : FileProg N B → Outcome N B → Option (Tree N B × FileProg N B × List (N × File B))
  | .mkstemp fits ok _, .made n =>
    if fits n = true ∧ (d n).isNone then some (Function.update d n (some ⟨default, privateMode⟩), ok n, []) else none
  | .mkstemp _ _ err, .failed _ => some (d, err, [])
  | .write n b ok _, .done => some (Function.update d n ((d n).map fun f => { f with bytes := b }), ok, [])
  | .write n _ _ err, .failed b => some (Function.update d n ((d n).map fun f => { f with bytes := b }), err, [])
  | .chmod n m ok _, .done => (d n).map fun f => (Function.update d n (some { f with mode := m }), ok, [])
  | .chmod _ _ _ err, .failed _ => some (d, err, [])
  | .replace src dst ok _, .done =>
    (d src).map fun f => (Function.update (Function.update d src none) dst (some f), ok, [(dst, f)])
  | .replace _ _ _ err, .failed _ => some (d, err, [])
  | .remove n ok _, .done => (d n).map fun _ => (Function.update d n none, ok, [])
  | .remove _ _ err, .failed _ => some (d, err, [])
  | .test n yes no, .done => some (d, if (d n).isSome then yes else no, [])
  | _, _ => none

/-- A temporary file, with its content where it is known. -/
abbrev Own (N B : Type*) := Option (N × Option (File B))

/-- The program writes to its own temporary file only, whose name is a `temp` one, and publishes what `A` allows. -/
def FileProg.Disciplined (temp : N → Bool) (A : N → File B → Prop) : Own N B → FileProg N B → Prop
  | own, .ret _ => own = none
  | own, .mkstemp fits ok err =>
    own = none ∧
      (∀ n, fits n = true → temp n = true ∧ (ok n).Disciplined temp A (some (n, some ⟨default, privateMode⟩))) ∧
      err.Disciplined temp A none
  | own, .write n b ok err =>
    ∃ c, own = some (n, c) ∧ ok.Disciplined temp A (some (n, c.map fun f => { f with bytes := b })) ∧
      err.Disciplined temp A (some (n, none))
  | own, .chmod n m ok err =>
    ∃ c, own = some (n, c) ∧ ok.Disciplined temp A (some (n, c.map fun f => { f with mode := m })) ∧
      err.Disciplined temp A own
  | own, .replace src dst ok err =>
    ∃ f, own = some (src, some f) ∧ A dst f ∧ ok.Disciplined temp A none ∧ err.Disciplined temp A own
  | own, .remove n ok err => ∃ c, own = some (n, c) ∧ ok.Disciplined temp A none ∧ err.Disciplined temp A none
  | own, .test _ yes no => yes.Disciplined temp A own ∧ no.Disciplined temp A own

/-- What a disciplined program can do to its temporary file and to the tree `d`, with the file that it publishes, and
whether it lets go of a temporary file that is still there. -/
inductive Acted (A : N → File B → Prop) (temp : N → Bool) (d : Tree N B) :
    Own N B → Own N B → Tree N B → List (N × File B) → Bool → Prop
  | idle (own : Own N B) : Acted A temp d own own d [] false
  | make {n : N} (ht : temp n = true) (hfree : d n = none) :
    Acted A temp d none (some (n, some ⟨default, privateMode⟩)) (Function.update d n (some ⟨default, privateMode⟩)) []
      false
  | fill {n : N} {c c' : Option (File B)} {f : File B} (hf : ∀ g ∈ c', f = g) :
    Acted A temp d (some (n, c)) (some (n, c')) (Function.update d n (some f)) [] false
  | publish {n dst : N} {f : File B} (hA : A dst f) (hd : d n = some f) :
    Acted A temp d (some (n, some f)) none (Function.update (Function.update d n none) dst (some f)) [(dst, f)] false
  | drop {n : N} {c : Option (File B)} : Acted A temp d (some (n, c)) none (Function.update d n none) [] false
  | leak {n : N} {c : Option (File B)} : Acted A temp d (some (n, c)) none d [] true

/-- The temporary file is there, with the content that is known of it. -/
def Held (temp : N → Bool) (d : Tree N B) (own : Own N B) : Prop :=
  ∀ n c, own = some (n, c) → temp n = true ∧ ∃ f, d n = some f ∧ ∀ g ∈ c, f = g

namespace FileProg

variable {A : N → File B → Prop} {temp : N → Bool} {d d' : Tree N B} {own : Own N B} {p p' : FileProg N B}
  {out : Outcome N B} {tr : List (N × File B)}

/-- A write or a change of mode. -/
theorem acted_fill {n : N} {c : Option (File B)} (hh : Held temp d (some (n, c))) (u : File B → File B) :
    Acted A temp d (some (n, c)) (some (n, c.map u)) (Function.update d n ((d n).map u)) [] false := by
  obtain ⟨-, f, hf, hc⟩ := hh n c rfl
  rw [hf, Option.map_some]
  refine .fill fun g hg => ?_
  obtain ⟨g', hg', rfl⟩ := Option.map_eq_some_iff.mp hg
  rw [hc g' hg']

/-- The removal of a temporary file fails. -/
def Leaks : FileProg N B → Outcome N B → Bool
  | .remove _ _ _, .failed _ => true
  | _, _ => false

/-- **All that a disciplined program can do.** -/
theorem Disciplined.step (h : p.Disciplined temp A own) (hh : Held temp d own)
    (hs : p.step d out = some (d', p', tr)) :
    ∃ own', p'.Disciplined temp A own' ∧ Acted A temp d own own' d' tr (p.Leaks out) := by
  cases p with
  | ret ok => cases out <;> cases hs
  | mkstemp fits ok err =>
    obtain ⟨rfl, hok, herr⟩ := h
    cases out with
    | done => cases hs
    | made n =>
      simp only [FileProg.step, Option.ite_none_right_eq_some, Option.some.injEq, Prod.mk.injEq,
        Option.isNone_iff_eq_none] at hs
      obtain ⟨⟨ht, hfree⟩, rfl, rfl, rfl⟩ := hs
      exact ⟨_, (hok n ht).2, .make (hok n ht).1 hfree⟩
    | failed b =>
      obtain ⟨rfl, rfl, rfl⟩ : d = d' ∧ err = p' ∧ [] = tr := by simpa [FileProg.step] using hs
      exact ⟨none, herr, .idle none⟩
  | write n b ok err =>
    obtain ⟨c, rfl, hok, herr⟩ := h
    cases out with
    | done =>
      simp only [FileProg.step, Option.some.injEq, Prod.mk.injEq] at hs
      obtain ⟨rfl, rfl, rfl⟩ := hs
      exact ⟨_, hok, acted_fill hh _⟩
    | made m => cases hs
    | failed b' =>
      simp only [FileProg.step, Option.some.injEq, Prod.mk.injEq] at hs
      obtain ⟨rfl, rfl, rfl⟩ := hs
      obtain ⟨-, f, hf, -⟩ := hh n c rfl
      rw [hf, Option.map_some]
      exact ⟨_, herr, .fill fun g hg => by cases hg⟩
  | chmod n m ok err =>
    obtain ⟨c, rfl, hok, herr⟩ := h
    cases out with
    | done =>
      obtain ⟨f, hf, heq⟩ := Option.map_eq_some_iff.mp hs
      simp only [Prod.mk.injEq] at heq
      obtain ⟨rfl, rfl, rfl⟩ := heq
      have hact := acted_fill (A := A) hh fun f => { f with mode := m }
      rw [hf, Option.map_some] at hact
      exact ⟨_, hok, hact⟩
    | made m => cases hs
    | failed b =>
      obtain ⟨rfl, rfl, rfl⟩ : d = d' ∧ err = p' ∧ [] = tr := by simpa [FileProg.step] using hs
      exact ⟨_, herr, .idle _⟩
  | replace src dst ok err =>
    obtain ⟨f, rfl, hA, hok, herr⟩ := h
    cases out with
    | done =>
      obtain ⟨f', hf', heq⟩ := Option.map_eq_some_iff.mp hs
      simp only [Prod.mk.injEq] at heq
      obtain ⟨rfl, rfl, rfl⟩ := heq
      obtain ⟨-, g, hg, hknown⟩ := hh src (some f) rfl
      obtain rfl : f' = f := (Option.some.inj (hf'.symm.trans hg)).trans (hknown f rfl)
      exact ⟨none, hok, .publish hA hf'⟩
    | made m => cases hs
    | failed b =>
      obtain ⟨rfl, rfl, rfl⟩ : d = d' ∧ err = p' ∧ [] = tr := by simpa [FileProg.step] using hs
      exact ⟨_, herr, .idle _⟩
  | remove n ok err =>
    obtain ⟨c, rfl, hok, herr⟩ := h
    cases out with
    | done =>
      obtain ⟨f, hf, heq⟩ := Option.map_eq_some_iff.mp hs
      simp only [Prod.mk.injEq] at heq
      obtain ⟨rfl, rfl, rfl⟩ := heq
      exact ⟨none, hok, .drop⟩
    | made m => cases hs
    | failed b =>
      obtain ⟨rfl, rfl, rfl⟩ : d = d' ∧ err = p' ∧ [] = tr := by simpa [FileProg.step] using hs
      exact ⟨none, herr, .leak⟩
  | test n yes no =>
    obtain ⟨hyes, hno⟩ := h
    cases out with
    | done =>
      simp only [FileProg.step, Option.some.injEq, Prod.mk.injEq] at hs
      obtain ⟨rfl, rfl, rfl⟩ := hs
      refine ⟨own, ?_, .idle own⟩
      split
      · exact hyes
      · exact hno
    | made m => cases hs
    | failed b => cases hs

theorem next (hs : p.step d out = some (d', p', tr)) : p.Next d p' tr := by
  cases p with
  | ret ok => cases out <;> cases hs
  | mkstemp fits ok err =>
    cases out with
    | done => cases hs
    | made n =>
      simp only [FileProg.step, Option.ite_none_right_eq_some, Option.some.injEq, Prod.mk.injEq] at hs
      obtain ⟨-, -, rfl, rfl⟩ := hs
      exact .made n
    | failed b => cases hs; exact .notMade
  | write n b ok err =>
    cases out with
    | done => cases hs; exact .written
    | made m => cases hs
    | failed b' => cases hs; exact .notWritten
  | chmod n m ok err =>
    cases out with
    | done =>
      obtain ⟨f, -, heq⟩ := Option.map_eq_some_iff.mp hs
      cases heq
      exact .changed
    | made m => cases hs
    | failed b => cases hs; exact .notChanged
  | replace src dst ok err =>
    cases out with
    | done =>
      obtain ⟨f, -, heq⟩ := Option.map_eq_some_iff.mp hs
      cases heq
      exact .replaced f
    | made m => cases hs
    | failed b => cases hs; exact .notReplaced
  | remove n ok err =>
    cases out with
    | done =>
      obtain ⟨f, -, heq⟩ := Option.map_eq_some_iff.mp hs
      cases heq
      exact .removed
    | made m => cases hs
    | failed b => cases hs; exact .notRemoved
  | test n yes no =>
    cases out with
    | done =>
      simp only [FileProg.step, Option.some.injEq, Prod.mk.injEq] at hs
      obtain ⟨rfl, rfl, rfl⟩ := hs
      split
      · rename_i h
        exact .found (Option.isSome_iff_ne_none.mp h)
      · rename_i h
        exact .missing (Option.not_isSome_iff_eq_none.mp h)
    | made m => cases hs
    | failed b => cases hs

end FileProg

/-! ### The effect of one call -/

namespace Acted

variable {A : N → File B → Prop} {temp : N → Bool} {d d' : Tree N B} {own own' : Own N B} {tr : List (N × File B)}
  {leaked : Bool}

theorem allowed (h : Acted A temp d own own' d' tr leaked) : ∀ q ∈ tr, A q.1 q.2 := by
  cases h with
  | publish hA _ =>
    intro q hq
    rw [List.mem_singleton.mp hq]
    exact hA
  | _ => exact fun q hq => absurd hq List.not_mem_nil

theorem held (h : Acted A temp d own own' d' tr leaked) (hh : Held temp d own) : Held temp d' own' := by
  intro n c hown
  cases h with
  | idle => exact hh n c hown
  | make ht hfree =>
    obtain ⟨rfl, rfl⟩ := Prod.mk.inj (Option.some.inj hown)
    exact ⟨ht, _, Function.update_self .., fun g hg => Option.some.inj hg⟩
  | fill hf =>
    obtain ⟨rfl, rfl⟩ := Prod.mk.inj (Option.some.inj hown)
    exact ⟨(hh _ _ rfl).1, _, Function.update_self .., hf⟩
  | publish | drop | leak => cases hown

/-- A file of the tree that belongs to another program stays, and is not taken over. -/
theorem others (h : Acted A temp d own own' d' tr leaked) (hA : ∀ n f, A n f → temp n = false) {n : N}
    (hn : temp n = true) (hd : d n ≠ none) (hne : ∀ c, own ≠ some (n, c)) : d' n = d n ∧ ∀ c, own' ≠ some (n, c) := by
  cases h with
  | idle => exact ⟨rfl, hne⟩
  | @make m _ hfree =>
    have hnm : n ≠ m := fun h => hd (h ▸ hfree)
    exact ⟨Function.update_of_ne hnm .., fun c hc => hnm (Prod.mk.inj (Option.some.inj hc)).1.symm⟩
  | @fill m c _ _ _ =>
    have hnm : n ≠ m := fun hnm => hne c (by rw [hnm])
    exact ⟨Function.update_of_ne hnm .., fun c hc => hnm (Prod.mk.inj (Option.some.inj hc)).1.symm⟩
  | @publish m dst f hAf _ =>
    have hnm : n ≠ m := fun hnm => hne _ (by rw [hnm])
    have hnd : n ≠ dst := fun h => Bool.false_ne_true ((hA dst f hAf).symm.trans (h ▸ hn))
    rw [Function.update_of_ne hnd, Function.update_of_ne hnm]
    exact ⟨rfl, fun c hc => by cases hc⟩
  | @drop m c =>
    have hnm : n ≠ m := fun hnm => hne c (by rw [hnm])
    exact ⟨Function.update_of_ne hnm .., fun c hc => by cases hc⟩
  | leak => exact ⟨rfl, fun c hc => by cases hc⟩

/-- Outside the temporary files only a rename shows. -/
theorem shown_eq (h : Acted A temp d own own' d' tr leaked) (hh : Held temp d own) {n : N} (hn : temp n = false) :
    d' n = shown d tr n := by
  have hne {m : N} (hm : temp m = true) : n ≠ m := fun h => Bool.false_ne_true (hn.symm.trans (h ▸ hm))
  cases h with
  | idle | leak => rfl
  | make ht _ => exact Function.update_of_ne (hne ht) ..
  | fill => exact Function.update_of_ne (hne (hh _ _ rfl).1) ..
  | drop => exact Function.update_of_ne (hne (hh _ _ rfl).1) ..
  | @publish m dst f _ _ =>
    show Function.update (Function.update d m none) dst (some f) n = Function.update d dst (some f) n
    by_cases hnd : n = dst
    · subst hnd
      rw [Function.update_self, Function.update_self]
    · rw [Function.update_of_ne hnd, Function.update_of_ne hnd, Function.update_of_ne (hne (hh _ _ rfl).1)]

/-- A temporary file is made where there was none. -/
theorem made (h : Acted A temp d own own' d' tr leaked) {n : N} {c : Option (File B)} (hown' : own' = some (n, c))
    (hne : ∀ c, own ≠ some (n, c)) : d n = none := by
  cases h with
  | idle => exact absurd hown' (hne c)
  | make _ hfree =>
    obtain ⟨rfl, rfl⟩ := Prod.mk.inj (Option.some.inj hown')
    exact hfree
  | @fill m c _ _ _ =>
    obtain ⟨rfl, rfl⟩ := Prod.mk.inj (Option.some.inj hown')
    exact absurd rfl (hne c)
  | publish | drop | leak => cases hown'

/-- A temporary file that is let go of is gone, and no other one changes. -/
theorem clean (h : Acted A temp d own own' d' tr false) (hA : ∀ n f, A n f → temp n = false) {n : N}
    (hn : temp n = true) (hne' : ∀ c, own' ≠ some (n, c)) :
    (∀ c, own = some (n, c) → d' n = none) ∧ ((∀ c, own ≠ some (n, c)) → d' n = d n) := by
  cases h with
  | idle => exact ⟨fun c hc => absurd hc (hne' c), fun _ => rfl⟩
  | @make m _ _ =>
    have hnm : n ≠ m := fun hnm => hne' _ (by rw [hnm])
    exact ⟨fun c hc => (by cases hc), fun _ => Function.update_of_ne hnm ..⟩
  | @fill m c c' _ _ =>
    have hnm : n ≠ m := fun hnm => hne' _ (by rw [hnm])
    exact ⟨fun c hc => absurd (Prod.mk.inj (Option.some.inj hc)).1.symm hnm, fun _ => Function.update_of_ne hnm ..⟩
  | @publish m dst f hAf _ =>
    have hnd : n ≠ dst := fun hnd => Bool.false_ne_true ((hA dst f hAf).symm.trans (hnd ▸ hn))
    rw [Function.update_of_ne hnd]
    refine ⟨fun c hc => ?_, fun hne => ?_⟩
    · obtain ⟨rfl, rfl⟩ := Prod.mk.inj (Option.some.inj hc)
      exact Function.update_self ..
    · exact Function.update_of_ne (fun hnm => hne _ (by rw [hnm])) ..
  | @drop m c =>
    refine ⟨fun c hc => ?_, fun hne => ?_⟩
    · obtain ⟨rfl, rfl⟩ := Prod.mk.inj (Option.some.inj hc)
      exact Function.update_self ..
    · exact Function.update_of_ne (fun hnm => hne _ (by rw [hnm])) ..

end Acted

/-! ### Programs side by side -/

/-- Programs over one tree. -/
structure FileSystem (ι N B : Type*) where
  dir : Tree N B
  procs : ι → FileProg N B

inductive FileLabel (ι N B : Type*)
  | call (i : ι) (out : Outcome N B)
  | kill (i : ι)

namespace FileSystem

/-- The temporary file of each program. -/
structure Inv (A : ι → N → File B → Prop) (temp : N → Bool) (d₀ : Tree N B) (own : ι → Own N B)
    (s : FileSystem ι N B) (tr : List (N × File B)) : Prop where
  disciplined : ∀ i, (s.procs i).Disciplined temp (A i) (own i)
  held : ∀ i, Held temp s.dir (own i)
  apart : ∀ i j n c c', own i = some (n, c) → own j = some (n, c') → i = j
  allowed : ∀ q ∈ tr, ∃ i, A i q.1 q.2
  shown_eq : ∀ n, temp n = false → s.dir n = shown d₀ tr n

/-- The temporary files that nobody owns are those that were there at first. -/
structure Tidy (temp : N → Bool) (d₀ : Tree N B) (own : ι → Own N B) (s : FileSystem ι N B) : Prop where
  fresh : ∀ i n c, own i = some (n, c) → d₀ n = none
  clean : ∀ n, temp n = true → (∀ i c, own i ≠ some (n, c)) → s.dir n = d₀ n

variable {A : ι → N → File B → Prop} {temp : N → Bool} {d₀ : Tree N B} {own : ι → Own N B} {s s' : FileSystem ι N B}
  {a : FileLabel ι N B} {tr o : List (N × File B)}

theorem Inv.init (h : ∀ i, (s.procs i).Disciplined temp (A i) none) : Inv A temp s.dir (fun _ => none) s [] :=
  ⟨h, fun _ _ _ hc => (by cases hc), fun _ _ _ _ _ hc => (by cases hc), fun q hq => absurd hq List.not_mem_nil,
    fun _ _ => rfl⟩

variable [DecidableEq ι]

def step (s : FileSystem ι N B) : FileLabel ι N B → Option (FileSystem ι N B × List (N × File B))
  | .call i out =>
    ((s.procs i).step s.dir out).map fun q => (⟨q.1, Function.update s.procs i q.2.1⟩, q.2.2)
  | .kill i => some (⟨s.dir, Function.update s.procs i (.ret false)⟩, [])

/-- No temporary file is left behind: nobody is killed, and no removal fails. -/
def Neat (s : FileSystem ι N B) : FileLabel ι N B → Prop
  | .call i out => (s.procs i).Leaks out = false
  | .kill _ => False

instance : DecidableRel (Neat (ι := ι) (N := N) (B := B))
  | _, .call _ _ => inferInstanceAs (Decidable (_ = false))
  | _, .kill _ => inferInstanceAs (Decidable False)

/-- One call of one program. -/
theorem Inv.call (h : Inv A temp d₀ own s tr) (hA : ∀ i n f, A i n f → temp n = false) {i : ι} {own' : Own N B}
    {d' : Tree N B} {p' : FileProg N B} {leaked : Bool} (hp : p'.Disciplined temp (A i) own')
    (ha : Acted (A i) temp s.dir (own i) own' d' o leaked) :
    Inv A temp d₀ (Function.update own i own') ⟨d', Function.update s.procs i p'⟩ (tr ++ o) := by
  -- the temporary file of another program
  have hother {j : ι} (hj : j ≠ i) {n : N} {c : Option (File B)} (hown : own j = some (n, c)) :
      d' n = s.dir n ∧ ∀ c, own' ≠ some (n, c) := by
    obtain ⟨ht, f, hf, -⟩ := h.held j n c hown
    exact ha.others (hA i) ht (by simp [hf]) fun c' hc' => hj (h.apart j i n c c' hown hc')
  refine ⟨fun j => ?_, fun j => ?_, fun j k n c c' hj hk => ?_, fun q hq => ?_, fun n hn => ?_⟩
  · dsimp only
    by_cases hj : j = i
    · subst hj
      rw [Function.update_self, Function.update_self]
      exact hp
    · rw [Function.update_of_ne hj, Function.update_of_ne hj]
      exact h.disciplined j
  · by_cases hj : j = i
    · subst hj
      rw [Function.update_self]
      exact ha.held (h.held j)
    · rw [Function.update_of_ne hj]
      intro n c hown
      dsimp only
      rw [(hother hj hown).1]
      exact h.held j n c hown
  · by_cases hji : j = i
    · by_cases hki : k = i
      · exact hji.trans hki.symm
      · subst hji
        rw [Function.update_self] at hj
        rw [Function.update_of_ne hki] at hk
        exact absurd hj ((hother hki hk).2 c)
    · rw [Function.update_of_ne hji] at hj
      by_cases hki : k = i
      · subst hki
        rw [Function.update_self] at hk
        exact absurd hk ((hother hji hj).2 c')
      · rw [Function.update_of_ne hki] at hk
        exact h.apart j k n c c' hj hk
  · rcases List.mem_append.mp hq with hq | hq
    · exact h.allowed q hq
    · exact ⟨i, ha.allowed q hq⟩
  · rw [shown_append]
    exact (ha.shown_eq (h.held i) hn).trans (shown_congr o (h.shown_eq n hn))

/-- A program that is killed leaves its temporary file behind. -/
theorem Inv.kill (h : Inv A temp d₀ own s tr) (i : ι) :
    Inv A temp d₀ (Function.update own i none) ⟨s.dir, Function.update s.procs i (.ret false)⟩ tr := by
  have hown {j : ι} {n : N} {c : Option (File B)} (hj : Function.update own i none j = some (n, c)) :
      own j = some (n, c) := by
    by_cases hji : j = i
    · subst hji
      rw [Function.update_self] at hj
      cases hj
    · rwa [Function.update_of_ne hji] at hj
  refine ⟨fun j => ?_, fun j n c hj => h.held j n c (hown hj), fun j k n c c' hj hk => ?_, h.allowed, h.shown_eq⟩
  · dsimp only
    by_cases hj : j = i
    · subst hj
      rw [Function.update_self, Function.update_self]
      rfl
    · rw [Function.update_of_ne hj, Function.update_of_ne hj]
      exact h.disciplined j
  · exact h.apart j k n c c' (hown hj) (hown hk)

theorem Inv.step (h : Inv A temp d₀ own s tr) (hA : ∀ i n f, A i n f → temp n = false)
    (hs : s.step a = some (s', o)) : ∃ own', Inv A temp d₀ own' s' (tr ++ o) := by
  cases a with
  | call i out =>
    obtain ⟨⟨d', p', o'⟩, hq, heq⟩ := Option.map_eq_some_iff.mp hs
    obtain ⟨rfl, rfl⟩ := Prod.mk.inj heq
    obtain ⟨own', hp, ha⟩ := (h.disciplined i).step (h.held i) hq
    exact ⟨_, h.call hA hp ha⟩
  | kill i =>
    obtain ⟨rfl, rfl⟩ := Prod.mk.inj (Option.some.inj hs)
    rw [List.append_nil]
    exact ⟨_, h.kill i⟩

/-- **What is published.**  Programs that are disciplined, in any order and with any failures and kills: what they
rename is what they may, and a file outside the temporary ones holds what was last renamed onto it, or what it held at
first. -/
theorem published (hA : ∀ i n f, A i n f → temp n = false) (h : ∀ i, (s.procs i).Disciplined temp (A i) none)
    {as : List (FileLabel ι N B)} (he : exec FileSystem.step s as = some (s', tr)) :
    (∀ q ∈ tr, ∃ i, A i q.1 q.2) ∧ ∀ n, temp n = false → s'.dir n = shown s.dir tr n := by
  obtain ⟨own, hinv⟩ := exec_inv (P := fun _ _ => True) (fun t tr => ∃ own, Inv A temp s.dir own t tr)
    (fun _ _ _ _ _ h _ hs => h.elim fun _ h => h.step hA hs) ⟨_, .init h⟩ (along_of_forall as s fun _ _ _ => trivial) he
  exact ⟨hinv.allowed, hinv.shown_eq⟩

/-- The program of `i` goes on in the step of the system, or stays. -/
theorem step_procs (hs : s.step a = some (s', o)) (i : ι) :
    (∃ p' tr', (s.procs i).Next s.dir p' tr' ∧ s'.procs i = p' ∧ o = tr') ∨ s'.procs i = s.procs i ∨
      s'.procs i = .ret false := by
  cases a with
  | call j out =>
    obtain ⟨⟨d', p', o'⟩, hq, heq⟩ := Option.map_eq_some_iff.mp hs
    obtain ⟨rfl, rfl⟩ := Prod.mk.inj heq
    by_cases hj : i = j
    · subst hj
      exact .inl ⟨p', o', FileProg.next hq, Function.update_self .., rfl⟩
    · exact .inr (.inl (Function.update_of_ne hj ..))
  | kill j =>
    obtain ⟨rfl, rfl⟩ := Prod.mk.inj (Option.some.inj hs)
    by_cases hj : i = j
    · subst hj
      exact .inr (.inr (Function.update_self ..))
    · exact .inr (.inl (Function.update_of_ne hj ..))

/-- **Delivery.**  Once it has returned, a program that delivers has renamed a file onto `n`. -/
theorem delivered {i : ι} {n : N} (h : (s.procs i).Delivers n) {as : List (FileLabel ι N B)}
    (he : exec FileSystem.step s as = some (s', tr)) (hret : s'.procs i = .ret true) : ∃ f, (n, f) ∈ tr := by
  have hinv := exec_inv (P := fun _ _ => True)
    (fun (t : FileSystem ι N B) tr => (t.procs i).Delivers n ∨ ∃ f, (n, f) ∈ tr)
    (fun t tr b t' o hI _ hs => ?_) (.inl h) (along_of_forall as s fun _ _ _ => trivial) he
  · rcases hinv with hd | hf
    · rw [hret] at hd
      cases hd
    · exact hf
  · rcases hI with hd | ⟨f, hf⟩
    · rcases step_procs hs i with ⟨p', tr', hnext, hp', rfl⟩ | hp' | hp'
      · rcases hnext.delivers hd with hd' | ⟨f, hf⟩
        · exact .inl (hp' ▸ hd')
        · exact .inr ⟨f, List.mem_append_right _ hf⟩
      · exact .inl (hp' ▸ hd)
      · refine .inl ?_
        rw [hp']
        rfl
    · exact .inr ⟨f, List.mem_append_left _ hf⟩

/-- **A file that is there stays**, where it is renamed onto only after a test has not found it. -/
theorem kept (hA : ∀ i n f, A i n f → temp n = false) (h : ∀ i, (s.procs i).Disciplined temp (A i) none) {n : N}
    (hn : temp n = false) (hkeeps : ∀ i, (s.procs i).Keeps n) (hthere : s.dir n ≠ none) {as : List (FileLabel ι N B)}
    (he : exec FileSystem.step s as = some (s', tr)) : s'.dir n = s.dir n := by
  have hinv := exec_inv (P := fun _ _ => True)
    (fun (t : FileSystem ι N B) tr => (∃ own, Inv A temp s.dir own t tr) ∧ (∀ i, (t.procs i).Keeps n) ∧ ∀ q ∈ tr, q.1 ≠ n)
    (fun t tr b t' o hI _ hs => ?_) ⟨⟨_, .init h⟩, hkeeps, fun q hq => absurd hq List.not_mem_nil⟩
    (along_of_forall as s fun _ _ _ => trivial) he
  · obtain ⟨⟨own, hI⟩, -, hne⟩ := hinv
    exact (hI.shown_eq n hn).trans (shown_of_ne hne)
  · obtain ⟨⟨own, hI⟩, hk, hne⟩ := hI
    have hd : t.dir n ≠ none := by
      rw [hI.shown_eq n hn, shown_of_ne hne]
      exact hthere
    refine ⟨hI.step hA hs, fun i => ?_, fun q hq => ?_⟩
    · rcases step_procs hs i with ⟨p', tr', hnext, hp', rfl⟩ | hp' | hp'
      · exact hp' ▸ (hnext.keeps (hk i) hd).1
      · exact hp' ▸ hk i
      · rw [hp']
        exact trivial
    · rcases List.mem_append.mp hq with hq | hq
      · exact hne q hq
      · cases b with
        | call i out =>
          obtain ⟨r, hr, heq⟩ := Option.map_eq_some_iff.mp hs
          obtain ⟨-, rfl⟩ := Prod.mk.inj heq
          exact ((FileProg.next hr).keeps (hk i) hd).2 q hq
        | kill i =>
          obtain ⟨-, rfl⟩ := Prod.mk.inj (Option.some.inj hs)
          exact absurd hq List.not_mem_nil

/-! ### No temporary file stays behind -/

theorem Tidy.step (h : Inv A temp d₀ own s tr) (ht : Tidy temp d₀ own s) (hA : ∀ i n f, A i n f → temp n = false)
    (hneat : s.Neat a) (hs : s.step a = some (s', o)) :
    ∃ own', Inv A temp d₀ own' s' (tr ++ o) ∧ Tidy temp d₀ own' s' := by
  cases a with
  | kill i => cases hneat
  | call i out =>
    obtain ⟨⟨d', p', o'⟩, hq, heq⟩ := Option.map_eq_some_iff.mp hs
    obtain ⟨rfl, rfl⟩ := Prod.mk.inj heq
    obtain ⟨own', hp, ha⟩ := (h.disciplined i).step (h.held i) hq
    refine ⟨_, h.call hA hp ha, fun j n c hj => ?_, fun n hn hfree => ?_⟩
    · by_cases hji : j = i
      · subst hji
        rw [Function.update_self] at hj
        by_cases hc : ∃ c, own j = some (n, c)
        · obtain ⟨c, hc⟩ := hc
          exact ht.fresh j n c hc
        · -- the file is new, so nobody had it, and it is free at first as it is now
          have hnone := ha.made hj fun c hc' => hc ⟨c, hc'⟩
          rw [← ht.clean n ((ha.held (h.held j)) n c hj).1 fun k c' hk => ?_]
          · exact hnone
          · obtain ⟨-, f, hf, -⟩ := h.held k n c' hk
            exact Option.some_ne_none f (hf.symm.trans hnone)
      · rw [Function.update_of_ne hji] at hj
        exact ht.fresh j n c hj
    · have hne' : ∀ c, own' ≠ some (n, c) := by
        have := hfree i
        rwa [Function.update_self] at this
      rw [hneat] at ha
      obtain ⟨hgone, hsame⟩ := ha.clean (hA i) hn hne'
      by_cases hc : ∃ c, own i = some (n, c)
      · obtain ⟨c, hc⟩ := hc
        exact (hgone c hc).trans (ht.fresh i n c hc).symm
      · refine (hsame fun c hc' => hc ⟨c, hc'⟩).trans (ht.clean n hn fun j c hj => ?_)
        by_cases hji : j = i
        · subst hji
          exact hc ⟨c, hj⟩
        · have := hfree j c
          rw [Function.update_of_ne hji] at this
          exact this hj

/-- **No temporary file stays behind** once all programs have returned, unless one was killed or a removal failed. -/
theorem tidy (hA : ∀ i n f, A i n f → temp n = false) (h : ∀ i, (s.procs i).Disciplined temp (A i) none)
    {as : List (FileLabel ι N B)} (hneat : Along FileSystem.step Neat s as)
    (he : exec FileSystem.step s as = some (s', tr)) (hend : ∀ i, (s'.procs i).returned = true)
    {n : N} (hn : temp n = true) : s'.dir n = s.dir n := by
  have h0 : Tidy temp s.dir (fun _ => none) s := ⟨fun _ _ _ hc => (by cases hc), fun _ _ _ => rfl⟩
  obtain ⟨own, hinv, ht⟩ := exec_inv (fun t tr => ∃ own, Inv A temp s.dir own t tr ∧ Tidy temp s.dir own t)
    (fun _ _ _ _ _ h hneat hs => h.elim fun _ h => Tidy.step h.1 h.2 hA hneat hs) ⟨_, .init h, h0⟩ hneat he
  refine ht.clean n hn fun i c hc => ?_
  have hd := hinv.disciplined i
  have hret := hend i
  cases hp : s'.procs i with
  | ret ok =>
    rw [hp] at hd
    exact Option.some_ne_none _ (hc.symm.trans hd)
  | _ =>
    rw [hp] at hret
    cases hret

end FileSystem

end Psysmon.Lib
