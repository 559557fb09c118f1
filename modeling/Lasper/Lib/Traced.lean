import Mathlib.Data.List.Basic

/-! Programs that may fail and that leave a trace of every state they passed
through. A crash may stop such a program at any state of its trace, so its
rules carry three things: an invariant of the whole trace, what holds when the
program returns, and what holds when it fails. -/

namespace Lasper.Lib

variable {σ ε α β : Type}

/-- One finished run: the states passed through in order, the last state, and
the value returned or the failure raised. -/
structure Outcome (σ ε α : Type) where
  passed : List σ
  state : σ
  result : Except ε α

def Traced (σ ε α : Type) := σ → Outcome σ ε α

namespace Traced

protected def pure (a : α) : Traced σ ε α := fun s => ⟨[], s, .ok a⟩

protected def bind (p : Traced σ ε α) (f : α → Traced σ ε β) : Traced σ ε β := fun s =>
  match (p s).result with
  | .ok a => { f a (p s).state with passed := (p s).passed ++ (f a (p s).state).passed }
  | .error e => ⟨(p s).passed, (p s).state, .error e⟩

instance : Monad (Traced σ ε) where
  pure := Traced.pure
  bind := Traced.bind

/-- Fail without touching the state. -/
def fail (e : ε) : Traced σ ε α := fun s => ⟨[], s, .error e⟩

def read (f : σ → α) : Traced σ ε α := fun s => ⟨[], s, .ok (f s)⟩

/-- One atomic change of the state; the new state is a point of the trace. -/
def update (f : σ → σ) : Traced σ ε Unit := fun s => ⟨[f s], f s, .ok ()⟩

/-- Run a program and return its failure as a value. -/
def attempt (p : Traced σ ε α) : Traced σ ε (Except ε α) := fun s =>
  { p s with result := .ok (p s).result }

/-- The same for a caller that has another kind of failure. -/
def caught {ε' : Type} (p : Traced σ ε α) : Traced σ ε' (Except ε α) := fun s =>
  ⟨(p s).passed, (p s).state, .ok (p s).result⟩

def ofExcept : Except ε α → Traced σ ε α
  | .ok a => Traced.pure a
  | .error e => fail e

def forEach (f : β → Traced σ ε Unit) : List β → Traced σ ε Unit
  | [] => Traced.pure ()
  | b :: bs => do f b; forEach f bs

def onlyIf (c : Bool) (p : Traced σ ε Unit) : Traced σ ε Unit :=
  if c then p else Traced.pure ()

/-- Run a program and rephrase its failure. -/
def mapFailure (f : ε → ε) (p : Traced σ ε α) : Traced σ ε α := fun s =>
  { p s with result := (p s).result.mapError f }

/-- The same into another kind of failure. -/
def rephrase {ε' : Type} (f : ε → ε') (p : Traced σ ε α) : Traced σ ε' α := fun s =>
  ⟨(p s).passed, (p s).state, (p s).result.mapError f⟩

section Monad

theorem bind_run_ok {p : Traced σ ε α} {f : α → Traced σ ε β} {s : σ} {a : α} (h : (p s).result = .ok a) :
    (p >>= f) s = { f a (p s).state with passed := (p s).passed ++ (f a (p s).state).passed } := by
  show Traced.bind p f s = _
  simp only [Traced.bind, h]

theorem bind_run_error {p : Traced σ ε α} {f : α → Traced σ ε β} {s : σ} {e : ε} (h : (p s).result = .error e) :
    (p >>= f) s = ⟨(p s).passed, (p s).state, .error e⟩ := by
  show Traced.bind p f s = _
  simp only [Traced.bind, h]

theorem bind_pure_state {p : Traced σ ε α} {f : α → β} {s : σ} :
    ((p >>= fun a => Pure.pure (f a)) s).state = (p s).state := by
  cases h : (p s).result with
  | ok a => rw [bind_run_ok h]; rfl
  | error e => rw [bind_run_error h]

theorem bind_pure_id (p : Traced σ ε α) : (p >>= fun a => Pure.pure (id a)) = p := by
  funext s
  cases h : (p s).result with
  | error e =>
    rw [bind_run_error h, ← h]
  | ok a =>
    rw [bind_run_ok h]
    show (⟨(p s).passed ++ [], (p s).state, .ok a⟩ : Outcome σ ε α) = p s
    rw [List.append_nil, ← h]

theorem bind_bind {γ : Type} (p : Traced σ ε α) (f : α → Traced σ ε β) (g : β → Traced σ ε γ) :
    (p >>= f >>= g) = p >>= fun a => f a >>= g := by
  funext s
  cases h : (p s).result with
  | error e =>
    have hpf : ((p >>= f) s).result = .error e := by rw [bind_run_error h]
    rw [bind_run_error hpf, bind_run_error h, bind_run_error h]
  | ok a =>
    cases hf : (f a (p s).state).result with
    | error e =>
      have hpf : ((p >>= f) s).result = .error e := by rw [bind_run_ok h]; exact hf
      rw [bind_run_error hpf, bind_run_ok h, bind_run_ok h, bind_run_error hf]
    | ok b =>
      have hpf : ((p >>= f) s).result = .ok b := by rw [bind_run_ok h]; exact hf
      rw [bind_run_ok hpf, bind_run_ok h, bind_run_ok h, bind_run_ok hf, List.append_assoc]

instance : LawfulMonad (Traced σ ε) :=
  LawfulMonad.mk' (Traced σ ε) bind_pure_id (fun _ _ => rfl) bind_bind

/-- A sequence returns what its second part returns after its first. -/
theorem bind_result_ok {p : Traced σ ε α} {f : α → Traced σ ε β} {s : σ} {b : β} :
    ((p >>= f) s).result = .ok b ↔ ∃ a, (p s).result = .ok a ∧ (f a (p s).state).result = .ok b := by
  cases h : (p s).result with
  | error e => simp [bind_run_error h]
  | ok a => simp [bind_run_ok h]

end Monad

theorem ofExcept_ok_bind (a : α) (f : α → Traced σ ε β) : (ofExcept (.ok a) >>= f) = f a := rfl

/-- From `s` the program passes only through states satisfying `I`; it returns
in `Q` or fails in `E`. -/
structure Ensures (I : σ → Prop) (p : Traced σ ε α) (Q : α → σ → Prop) (E : ε → σ → Prop) (s : σ) :
    Prop where
  always : ∀ t ∈ (p s).passed, I t
  returned : ∀ a, (p s).result = .ok a → Q a (p s).state
  failed : ∀ e, (p s).result = .error e → E e (p s).state

section Rules

variable {I : σ → Prop} {p : Traced σ ε α} {Q Q' : α → σ → Prop} {E E' : ε → σ → Prop} {s : σ}

theorem Ensures.mono (h : Ensures I p Q E s) (hQ : ∀ a t, Q a t → Q' a t)
    (hE : ∀ e t, E e t → E' e t) : Ensures I p Q' E' s where
  always := h.always
  returned a ha := hQ a _ (h.returned a ha)
  failed e he := hE e _ (h.failed e he)

theorem Ensures.post (h : Ensures I p Q E s) (hQ : ∀ a t, Q a t → Q' a t) : Ensures I p Q' E s :=
  h.mono hQ fun _ _ he => he

theorem Ensures.weaken {I' : σ → Prop} (h : Ensures I p Q E s) (hI : ∀ t, I t → I' t)
    (hQ : ∀ a t, Q a t → Q' a t) (hE : ∀ e t, E e t → E' e t) : Ensures I' p Q' E' s where
  always t ht := hI t (h.always t ht)
  returned a ha := hQ a _ (h.returned a ha)
  failed e he := hE e _ (h.failed e he)

theorem Ensures.and (h : Ensures I p Q E s) (h' : Ensures I p Q' E' s) :
    Ensures I p (fun a t => Q a t ∧ Q' a t) (fun e t => E e t ∧ E' e t) s where
  always := h.always
  returned a ha := ⟨h.returned a ha, h'.returned a ha⟩
  failed e he := ⟨h.failed e he, h'.failed e he⟩

/-- A program that cannot fail returns. -/
theorem Ensures.succeeds (h : Ensures I p Q (fun _ _ => False) s) :
    ∃ a, (p s).result = .ok a ∧ Q a (p s).state := by
  cases hr : (p s).result with
  | ok a => exact ⟨a, rfl, h.returned a hr⟩
  | error e => exact absurd hr (h.failed e)

theorem ensures_pure {a : α} (h : Q a s) : Ensures I (Pure.pure a) Q E s where
  always := by rintro t ht; cases ht
  returned := by rintro b hb; cases hb; exact h
  failed := by rintro e he; cases he

theorem ensures_fail {e : ε} (h : E e s) : Ensures I (fail e) Q E s where
  always := by rintro t ht; cases ht
  returned := by rintro b hb; cases hb
  failed := by rintro e' he; cases he; exact h

theorem ensures_read {f : σ → α} (h : Q (f s) s) : Ensures I (read f) Q E s where
  always := by rintro t ht; cases ht
  returned := by rintro b hb; cases hb; exact h
  failed := by rintro e he; cases he

theorem ensures_update {f : σ → σ} {R : Unit → σ → Prop} (hI : I (f s)) (h : R () (f s)) :
    Ensures I (update f) R E s where
  always := by
    rintro t ht
    rw [show ((update f : Traced σ ε Unit) s).passed = [f s] from rfl] at ht
    rw [List.mem_singleton.mp ht]
    exact hI
  returned := by rintro b _; exact h
  failed := by rintro e he; cases he

theorem ensures_bind {f : α → Traced σ ε β} {R : β → σ → Prop} (h : Ensures I p Q E s)
    (hf : ∀ a t, Q a t → Ensures I (f a) R E t) : Ensures I (p >>= f) R E s := by
  have hb : (p >>= f) s = Traced.bind p f s := rfl
  cases hr : (p s).result with
  | error e =>
    have he : (p >>= f) s = ⟨(p s).passed, (p s).state, .error e⟩ := by rw [hb]; simp [Traced.bind, hr]
    refine ⟨by rw [he]; exact h.always, by rw [he]; rintro a ⟨⟩, ?_⟩
    rw [he]
    rintro e' he'
    cases he'
    exact h.failed e hr
  | ok a =>
    have he : (p >>= f) s = { f a (p s).state with
        passed := (p s).passed ++ (f a (p s).state).passed } := by rw [hb]; simp [Traced.bind, hr]
    have hfa := hf a _ (h.returned a hr)
    refine ⟨?_, by rw [he]; exact hfa.returned, by rw [he]; exact hfa.failed⟩
    rw [he]
    rintro t ht
    rcases List.mem_append.mp ht with ht | ht
    · exact h.always t ht
    · exact hfa.always t ht

/-- Inside `attempt` a failure is one more way to return. -/
theorem ensures_attempt {R : Except ε α → σ → Prop} (h : Ensures I p (fun a => R (.ok a))
    (fun e => R (.error e)) s) : Ensures I (attempt p) R E s where
  always := h.always
  returned := by
    rintro r hr
    have hr' : r = (p s).result := by
      have := hr
      simp only [attempt, Except.ok.injEq] at this
      exact this.symm
    subst hr'
    show R (p s).result (p s).state
    cases hp : (p s).result with
    | ok a => exact h.returned a hp
    | error e => exact h.failed e hp
  failed := by rintro e he; cases he

theorem ensures_caught {ε' : Type} {E : ε' → σ → Prop} {R : Except ε α → σ → Prop}
    (h : Ensures I p (fun a => R (.ok a)) (fun e => R (.error e)) s) : Ensures I (caught p) R E s where
  always := h.always
  returned := by
    rintro r hr
    cases hr
    show R (p s).result (p s).state
    cases hp : (p s).result with
    | ok a => exact h.returned a hp
    | error e => exact h.failed e hp
  failed := by rintro e he; cases he

/-- What a program does, as a rule: it ends as it ends. -/
theorem ensures_run : Ensures (fun _ => True) p (fun a t => (p s).result = .ok a ∧ (p s).state = t)
    (fun e t => (p s).result = .error e ∧ (p s).state = t) s where
  always _ _ := trivial
  returned _ ha := ⟨ha, rfl⟩
  failed _ he := ⟨he, rfl⟩

theorem ensures_ofExcept {x : Except ε α} (hQ : ∀ a, x = .ok a → Q a s)
    (hE : ∀ e, x = .error e → E e s) : Ensures I (ofExcept x) Q E s := by
  cases x with
  | ok a => exact ensures_pure (hQ a rfl)
  | error e => exact ensures_fail (hE e rfl)

theorem ensures_onlyIf {c : Bool} {q : Traced σ ε Unit} {R : Unit → σ → Prop}
    (h : c = true → Ensures I q R E s) (hn : c = false → R () s) : Ensures I (onlyIf c q) R E s := by
  cases c with
  | true => exact h rfl
  | false => exact ensures_pure (hn rfl)

theorem ensures_mapFailure {f : ε → ε} (h : Ensures I p Q (fun e => E (f e)) s) :
    Ensures I (mapFailure f p) Q E s where
  always := h.always
  returned := by
    rintro a ha
    cases hp : (p s).result with
    | ok b =>
      rw [show (mapFailure f p s).result = .ok b by simp [mapFailure, hp, Except.mapError]] at ha
      cases ha
      exact h.returned a hp
    | error e =>
      rw [show (mapFailure f p s).result = .error (f e) by simp [mapFailure, hp, Except.mapError]] at ha
      cases ha
  failed := by
    rintro e he
    cases hp : (p s).result with
    | ok b =>
      rw [show (mapFailure f p s).result = .ok b by simp [mapFailure, hp, Except.mapError]] at he
      cases he
    | error e' =>
      rw [show (mapFailure f p s).result = .error (f e') by simp [mapFailure, hp, Except.mapError]] at he
      cases he
      exact h.failed e' hp

theorem ensures_rephrase {ε' : Type} {E : ε' → σ → Prop} {f : ε → ε'}
    (h : Ensures I p Q (fun e => E (f e)) s) : Ensures I (rephrase f p) Q E s where
  always := h.always
  returned := by
    rintro a ha
    have hr : (rephrase f p s).result = (p s).result.mapError f := rfl
    rw [hr] at ha
    cases hp : (p s).result with
    | ok b =>
      rw [hp] at ha
      cases ha
      exact h.returned a hp
    | error e =>
      rw [hp] at ha
      cases ha
  failed := by
    rintro e he
    have hr : (rephrase f p s).result = (p s).result.mapError f := rfl
    rw [hr] at he
    cases hp : (p s).result with
    | ok b =>
      rw [hp] at he
      cases he
    | error e' =>
      rw [hp] at he
      cases he
      exact h.failed e' hp

/-- A loop keeps what each of its iterations keeps. -/
theorem ensures_forEach {f : β → Traced σ ε Unit} {K : σ → Prop} {bs : List β}
    (hf : ∀ b ∈ bs, ∀ t, K t → Ensures I (f b) (fun _ => K) E t) (hs : K s) :
    Ensures I (forEach f bs) (fun _ => K) E s := by
  induction bs generalizing s with
  | nil => exact ensures_pure hs
  | cons b bs ih =>
    refine ensures_bind (hf b (List.mem_cons_self ..) s hs) ?_
    rintro _ t ht
    exact ih (fun b' hb' => hf b' (List.mem_cons_of_mem _ hb')) ht

end Rules

/-- Started in `I`, the program stays in `I` all along and ends in it. -/
def Preserves (I : σ → Prop) (p : Traced σ ε α) : Prop :=
  ∀ s, I s → Ensures I p (fun _ => I) (fun _ => I) s

section Preservation

variable {I : σ → Prop} {p : Traced σ ε α}

theorem preserves_pure {a : α} : Preserves I (Pure.pure a : Traced σ ε α) :=
  fun _ hs => ensures_pure hs

theorem preserves_fail {e : ε} : Preserves I (fail e : Traced σ ε α) :=
  fun _ hs => ensures_fail hs

theorem preserves_read {f : σ → α} : Preserves I (read f : Traced σ ε α) :=
  fun _ hs => ensures_read hs

theorem preserves_update {f : σ → σ} (h : ∀ s, I s → I (f s)) :
    Preserves I (update f : Traced σ ε Unit) :=
  fun s hs => ensures_update (h s hs) (h s hs)

theorem preserves_bind {f : α → Traced σ ε β} (hp : Preserves I p) (hf : ∀ a, Preserves I (f a)) :
    Preserves I (p >>= f) :=
  fun s hs => ensures_bind (hp s hs) fun a t ht => hf a t ht

theorem preserves_ofExcept {x : Except ε α} : Preserves I (ofExcept x : Traced σ ε α) :=
  fun _ hs => ensures_ofExcept (fun _ _ => hs) fun _ _ => hs

theorem preserves_attempt (hp : Preserves I p) : Preserves I (attempt p) :=
  fun s hs => ensures_attempt (hp s hs)

theorem preserves_caught {ε' : Type} (hp : Preserves I p) :
    Preserves I (caught p : Traced σ ε' (Except ε α)) :=
  fun s hs => ensures_caught (hp s hs)

theorem preserves_onlyIf {c : Bool} {q : Traced σ ε Unit} (hq : Preserves I q) :
    Preserves I (onlyIf c q) :=
  fun s hs => ensures_onlyIf (fun _ => hq s hs) fun _ => hs

theorem preserves_mapFailure {f : ε → ε} (hp : Preserves I p) : Preserves I (mapFailure f p) :=
  fun s hs => ensures_mapFailure (hp s hs)

theorem preserves_forEach {f : β → Traced σ ε Unit} {bs : List β} (hf : ∀ b, Preserves I (f b)) :
    Preserves I (forEach f bs) :=
  fun _ hs => ensures_forEach (fun b _ t ht => hf b t ht) hs

end Preservation

end Traced

end Lasper.Lib
