import Mathlib

/-!
# Runs of fallible step functions

A machine takes one operation at a time, either faulting or answering with a
reply and a successor state. A specification machine never faults. One step
lemma lifts to every finite run.
-/
namespace Runs

variable {σ τ ο ρ ε : Type*}

section Sequencing

universe w

variable {α β : Type w}

@[simp] theorem ok_bind (a : α) (f : α → Except ε β) : (Except.ok a >>= f) = f a := rfl

@[simp] theorem error_bind (e : ε) (f : α → Except ε β) : (Except.error e >>= f) = .error e := rfl

@[simp] theorem pure_eq_ok (a : α) : (pure a : Except ε α) = .ok a := rfl

@[simp] theorem throw_eq_error (e : ε) : (throw e : Except ε α) = .error e := rfl

theorem mapM_ok {f : α → Except ε β} {g : α → β} {as : List α} (each : ∀ a ∈ as, f a = .ok (g a)) :
    as.mapM f = .ok (as.map g) := by
  induction as with
  | nil => rfl
  | cons a as ih =>
      obtain ⟨first, others⟩ := List.forall_mem_cons.mp each
      rw [List.mapM_cons, first, ok_bind, ih others]
      rfl

theorem bind_eq_ok {x : Except ε α} {f : α → Except ε β} {y : β} (h : (x >>= f) = .ok y) :
    ∃ a, x = .ok a ∧ f a = .ok y := by
  cases x with
  | error e => cases h
  | ok a => exact ⟨a, rfl, h⟩

/-- A mapped computation that returns has returned before. -/
theorem map_eq_ok {f : α → β} {x : Except ε α} {y : β} (h : x.map f = .ok y) :
    ∃ a, x = .ok a ∧ f a = y := by
  cases x with
  | error e => cases h
  | ok a =>
      cases h
      exact ⟨a, rfl, rfl⟩

end Sequencing

/-- Feed the operations in order and collect the replies. -/
def run (step : σ → ο → Except ε (ρ × σ)) : σ → List ο → Except ε (List ρ × σ)
  | s, [] => .ok ([], s)
  | s, o :: os =>
      match step s o with
      | .error e => .error e
      | .ok (r, s') =>
          match run step s' os with
          | .error e => .error e
          | .ok (rs, s'') => .ok (r :: rs, s'')

def runSpec (spec : τ → ο → ρ × τ) : τ → List ο → List ρ × τ
  | t, [] => ([], t)
  | t, o :: os => ((spec t o).1 :: (runSpec spec (spec t o).2 os).1, (runSpec spec (spec t o).2 os).2)

/-- Every operation is legal in the specification state it meets. -/
def Legal (spec : τ → ο → ρ × τ) (legal : τ → ο → Prop) : τ → List ο → Prop
  | _, [] => True
  | t, o :: os => legal t o ∧ Legal spec legal (spec t o).2 os

theorem run_cons {step : σ → ο → Except ε (ρ × σ)} {s s' s'' : σ} {o : ο} {os : List ο} {r : ρ}
    {rs : List ρ} (first : step s o = .ok (r, s')) (rest : run step s' os = .ok (rs, s'')) :
    run step s (o :: os) = .ok (r :: rs, s'') := by
  simp only [run, first, rest]

theorem run_one {step : σ → ο → Except ε (ρ × σ)} {s s' : σ} {o : ο} {r : ρ} (only : step s o = .ok (r, s')) :
    run step s [o] = .ok ([r], s') := by
  simp only [run, only]

theorem run_append {step : σ → ο → Except ε (ρ × σ)} {s s' s'' : σ} {os os' : List ο} {rs rs' : List ρ}
    (first : run step s os = .ok (rs, s')) (rest : run step s' os' = .ok (rs', s'')) :
    run step s (os ++ os') = .ok (rs ++ rs', s'') := by
  induction os generalizing s rs with
  | nil =>
      cases first
      exact rest
  | cons o os ih =>
      rw [run] at first
      split at first
      · cases first
      · next r1 s1 here =>
          split at first
          · cases first
          · next rs1 s2 there =>
              cases first
              exact run_cons here (ih there)

/-- Behind a fault nothing more happens. -/
theorem run_faults {step : σ → ο → Except ε (ρ × σ)} {s s' : σ} {before : List ο} {o : ο} {rs : List ρ}
    {e : ε} (ran : run step s before = .ok (rs, s')) (fault : step s' o = .error e) (after : List ο) :
    run step s (before ++ o :: after) = .error e := by
  induction before generalizing s rs with
  | nil =>
      cases ran
      simp only [List.nil_append, run, fault]
  | cons o1 before ih =>
      rw [run] at ran
      split at ran
      · cases ran
      · next r1 s1 first =>
          split at ran
          · cases ran
          · next rs1 s2 rest =>
              cases ran
              simp only [List.cons_append, run, first, ih rest]

/-- Operations that every state takes alike make the same run. -/
theorem run_congr {step : σ → ο → Except ε (ρ × σ)} {os os' : List ο}
    (alike : List.Forall₂ (fun o o' => ∀ s, step s o = step s o') os os') (s : σ) :
    run step s os = run step s os' := by
  induction alike generalizing s with
  | nil => rfl
  | cons first _ ih => simp only [run, first s, ih]

theorem legal_of_forall {spec : τ → ο → ρ × τ} {legal : ο → Prop} {os : List ο}
    (h : ∀ o ∈ os, legal o) (t : τ) : Legal spec (fun _ => legal) t os := by
  induction os generalizing t with
  | nil => trivial
  | cons o os ih =>
      exact ⟨h o List.mem_cons_self, ih (fun o' m => h o' (List.mem_cons_of_mem _ m)) _⟩

/-- Forward simulation: related states answer a legal operation alike and stay
related, hence so do whole runs, and no step of such a run faults. -/
theorem run_simulates {step : σ → ο → Except ε (ρ × σ)} {spec : τ → ο → ρ × τ}
    {legal : τ → ο → Prop} {R : σ → τ → Prop}
    (sim : ∀ s t o, R s t → legal t o → ∃ s', step s o = .ok ((spec t o).1, s') ∧ R s' (spec t o).2)
    {os : List ο} {s : σ} {t : τ} (related : R s t) (ok : Legal spec legal t os) :
    ∃ s', run step s os = .ok ((runSpec spec t os).1, s') ∧ R s' (runSpec spec t os).2 := by
  induction os generalizing s t with
  | nil => exact ⟨s, rfl, related⟩
  | cons o os ih =>
      obtain ⟨s1, first, related1⟩ := sim s t o related ok.1
      obtain ⟨s2, rest, related2⟩ := ih related1 ok.2
      exact ⟨s2, run_cons first rest, related2⟩

theorem first_failure {P : ο → Prop} {os : List ο} (h : ¬ ∀ o ∈ os, P o) :
    ∃ before o after, os = before ++ o :: after ∧ (∀ o' ∈ before, P o') ∧ ¬ P o := by
  induction os with
  | nil => simp at h
  | cons o os ih =>
      by_cases good : P o
      · have later : ¬ ∀ o' ∈ os, P o' := fun all => h (by simpa [good] using all)
        obtain ⟨before, o', after, eq, ok, bad⟩ := ih later
        refine ⟨o :: before, o', after, by rw [eq, List.cons_append], ?_, bad⟩
        simpa [good] using ok
      · exact ⟨[], o, os, rfl, by simp, good⟩

/-- Every operation of the run meets the condition in the state before it. -/
def Along (step : σ → ο → Except ε (ρ × σ)) (cond : σ → ο → Prop) : σ → List ο → Prop
  | _, [] => True
  | s, o :: os => cond s o ∧ ∀ r s', step s o = .ok (r, s') → Along step cond s' os

/-- Conditions that agree on the steps of a legal run hold along it together. -/
theorem along_iff {step : σ → ο → Except ε (ρ × σ)} {L : ο → Prop} {P Q : σ → ο → Prop} {I : σ → Prop}
    (keep : ∀ s o r s', I s → L o → P s o → step s o = .ok (r, s') → I s')
    (agree : ∀ s o, I s → L o → (P s o ↔ Q s o)) {os : List ο} {s : σ} (init : I s)
    (ok : ∀ o ∈ os, L o) : Along step P s os ↔ Along step Q s os := by
  induction os generalizing s with
  | nil => exact Iff.rfl
  | cons o os ih =>
      obtain ⟨first, others⟩ := List.forall_mem_cons.mp ok
      have same := agree s o init first
      constructor
      · intro along
        refine ⟨same.mp along.1, fun r s' ran => ?_⟩
        exact (ih (keep s o r s' init first along.1 ran) others).mp (along.2 r s' ran)
      · intro along
        have here := same.mpr along.1
        exact ⟨here, fun r s' ran => (ih (keep s o r s' init first here ran) others).mpr (along.2 r s' ran)⟩

/-- What holds of a legal operation wherever the invariant does holds along a legal run. -/
theorem along_of_invariant {step : σ → ο → Except ε (ρ × σ)} {L : ο → Prop} {P : σ → ο → Prop}
    {I : σ → Prop} (keep : ∀ s o r s', I s → L o → step s o = .ok (r, s') → I s')
    (imp : ∀ s o, I s → L o → P s o) {os : List ο} {s : σ} (init : I s) (ok : ∀ o ∈ os, L o) :
    Along step P s os := by
  induction os generalizing s with
  | nil => trivial
  | cons o os ih =>
      obtain ⟨first, others⟩ := List.forall_mem_cons.mp ok
      exact ⟨imp s o init first, fun r s' ran => ih (keep s o r s' init first ran) others⟩

theorem along_true {step : σ → ο → Except ε (ρ × σ)} (os : List ο) (s : σ) :
    Along step (fun _ _ => True) s os := by
  induction os generalizing s with
  | nil => trivial
  | cons o os ih => exact ⟨trivial, fun _ s' _ => ih s'⟩

/-- Every state of the run has the property. -/
def Visits (step : σ → ο → Except ε (ρ × σ)) (P : σ → Prop) : σ → List ο → Prop
  | s, [] => P s
  | s, o :: os => P s ∧ ∀ r s', step s o = .ok (r, s') → Visits step P s' os

theorem Visits.head {step : σ → ο → Except ε (ρ × σ)} {P : σ → Prop} {s : σ} {os : List ο}
    (h : Visits step P s os) : P s := by
  cases os with
  | nil => exact h
  | cons o os => exact h.1

/-- What the legal steps preserve holds in every state of a legal run. -/
theorem visits_of_invariant {step : σ → ο → Except ε (ρ × σ)} {cond : σ → ο → Prop} {I P : σ → Prop}
    (keep : ∀ s o r s', I s → cond s o → step s o = .ok (r, s') → I s') (imp : ∀ s, I s → P s)
    {os : List ο} {s : σ} (init : I s) (legal : Along step cond s os) : Visits step P s os := by
  induction os generalizing s with
  | nil => exact imp s init
  | cons o os ih =>
      exact ⟨imp s init, fun r s' h => ih (keep s o r s' init legal.1 h) (legal.2 r s' h)⟩

/-- Where a step keeps `P` exactly when it meets `cond`, and one that does not cannot
fault, a run stays in `P` exactly when all its steps meet `cond`. -/
theorem visits_iff_along {step : σ → ο → Except ε (ρ × σ)} {L cond : σ → ο → Prop}
    {I P : σ → Prop}
    (live : ∀ s o, I s → P s → L s o → ¬ cond s o → ∃ r s', step s o = .ok (r, s'))
    (keep : ∀ s o r s', I s → L s o → step s o = .ok (r, s') → I s')
    (exact : ∀ s o r s', I s → P s → L s o → step s o = .ok (r, s') → (P s' ↔ cond s o))
    {os : List ο} {s : σ} (init : I s) (good : P s) (ok : Along step L s os) :
    Visits step P s os ↔ Along step cond s os := by
  induction os generalizing s with
  | nil => exact ⟨fun _ => trivial, fun _ => good⟩
  | cons o os ih =>
      constructor
      · intro visits
        refine ⟨?_, fun r1 s1 h => ?_⟩
        · by_contra bad
          obtain ⟨r, s', hstep⟩ := live s o init good ok.1 bad
          exact bad ((exact s o r s' init good ok.1 hstep).mp (visits.2 r s' hstep).head)
        · have good1 := (visits.2 r1 s1 h).head
          exact (ih (keep s o r1 s1 init ok.1 h) good1 (ok.2 r1 s1 h)).mp (visits.2 r1 s1 h)
      · intro along
        refine ⟨good, fun r1 s1 h => ?_⟩
        have good1 := (exact s o r1 s1 init good ok.1 h).mpr along.1
        exact (ih (keep s o r1 s1 init ok.1 h) good1 (ok.2 r1 s1 h)).mpr (along.2 r1 s1 h)

/-- The whole sequence is answered as the specification answers it. -/
def Answers (step : σ → ο → Except ε (ρ × σ)) (spec : τ → ο → ρ × τ) (s : σ) (t : τ) (os : List ο) :
    Prop :=
  ∃ s', run step s os = .ok ((runSpec spec t os).1, s')

theorem answers_cons {step : σ → ο → Except ε (ρ × σ)} {spec : τ → ο → ρ × τ} {s : σ} {t : τ} {o : ο}
    {os : List ο} : Answers step spec s t (o :: os) ↔
      ∃ s', step s o = .ok ((spec t o).1, s') ∧ Answers step spec s' (spec t o).2 os := by
  simp only [Answers, run, runSpec]
  constructor
  · rintro ⟨s2, h⟩
    split at h
    · cases h
    · next r s1 hstep =>
        split at h
        · cases h
        · next rs s3 hrun =>
            cases h
            exact ⟨s1, hstep, s2, hrun⟩
  · rintro ⟨s1, hstep, s2, hrun⟩
    exact ⟨s2, by simp only [hstep, hrun]⟩

theorem answers_map {π : Type*} {step : σ → ο → Except ε (ρ × σ)} {spec : τ → ο → ρ × τ} (f : π → ο)
    {s : σ} {t : τ} {ps : List π} : Answers step spec s t (ps.map f) ↔
      Answers (fun s p => step s (f p)) (fun t p => spec t (f p)) s t ps := by
  induction ps generalizing s t with
  | nil => exact Iff.rfl
  | cons p ps ih => simp only [List.map_cons, answers_cons, ih]

/-- Where good operations keep two machines related and no bad one is answered
alike, the answers agree exactly on sequences of good operations. -/
theorem answers_iff {step : σ → ο → Except ε (ρ × σ)} {spec : τ → ο → ρ × τ} {R : σ → τ → Prop}
    {good : ο → Prop}
    (same : ∀ s t o, R s t → good o → ∃ s', step s o = .ok ((spec t o).1, s') ∧ R s' (spec t o).2)
    (differ : ∀ s t o, R s t → ¬ good o → ∀ s', step s o ≠ .ok ((spec t o).1, s'))
    {s : σ} {t : τ} {os : List ο} (related : R s t) :
    Answers step spec s t os ↔ ∀ o ∈ os, good o := by
  induction os generalizing s t with
  | nil => exact iff_of_true ⟨s, rfl⟩ (by simp)
  | cons o os ih =>
      rw [answers_cons, List.forall_mem_cons]
      by_cases ok : good o
      · obtain ⟨s1, hstep, related1⟩ := same s t o related ok
        rw [← ih related1, and_iff_right ok]
        constructor
        · rintro ⟨s2, hstep2, answers⟩
          rw [hstep] at hstep2
          cases hstep2
          exact answers
        · exact fun answers => ⟨s1, hstep, answers⟩
      · refine iff_of_false ?_ fun all => ok all.1
        rintro ⟨s1, hstep, -⟩
        exact differ s t o related ok s1 hstep

/-! ## Loops that return early -/

section EarlyReturn

variable {ι : Type*} [DecidableEq ρ] {fine bad : ρ} {visit : σ → ι → Except ε (ρ × σ)} {good : ι → Bool}
  {legal : ι → Prop} {next : τ → ι → τ} {R Q : σ → τ → Prop}

/-- Visit the items in order up to the first one that is not answered with `fine`. -/
def untilError (fine : ρ) (visit : σ → ι → Except ε (ρ × σ)) : σ → List ι → Except ε (ρ × σ)
  | s, [] => .ok (fine, s)
  | s, i :: is =>
      match visit s i with
      | .error e => .error e
      | .ok (r, s') => if r = fine then untilError fine visit s' is else .ok (r, s')

/-- If exactly the good items are answered with `fine`, the loop goes through the good ones
in front of the first bad one, and a bad one leaves no trace but what `Q` ignores. -/
theorem untilError_simulates (ne : bad ≠ fine) (weaken : ∀ s t, R s t → Q s t)
    (accept : ∀ s t i, R s t → good i = true → ∃ s', visit s i = .ok (fine, s') ∧ R s' (next t i))
    (reject : ∀ s t i, R s t → legal i → good i = false → ∃ s', visit s i = .ok (bad, s') ∧ Q s' t)
    {is : List ι} (ok : ∀ i, is.find? (fun i => !good i) = some i → legal i) {s : σ} {t : τ}
    (related : R s t) :
    ∃ s', untilError fine visit s is = .ok (if is.all good then fine else bad, s') ∧
      Q s' ((is.takeWhile good).foldl next t) := by
  induction is generalizing s t with
  | nil => exact ⟨s, rfl, weaken s t related⟩
  | cons i is ih =>
      cases here : good i with
      | true =>
          obtain ⟨s1, answer, related1⟩ := accept s t i related here
          rw [List.find?_cons_of_neg (by simp [here])] at ok
          obtain ⟨s2, rest, related2⟩ := ih ok related1
          refine ⟨s2, ?_, ?_⟩
          · rw [untilError, answer, List.all_cons, here, Bool.true_and]
            exact (if_pos rfl).trans rest
          · rwa [List.takeWhile_cons_of_pos here]
      | false =>
          have first := ok i (List.find?_cons_of_pos (by simp [here]))
          obtain ⟨s1, answer, related1⟩ := reject s t i related first here
          refine ⟨s1, ?_, ?_⟩
          · rw [untilError, answer, List.all_cons, here, Bool.false_and]
            exact if_neg ne
          · rwa [List.takeWhile_cons_of_neg (by simp [here])]

end EarlyReturn

/-! ## Runs that cannot fail -/

end Runs
