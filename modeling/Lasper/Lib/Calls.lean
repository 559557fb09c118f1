import Lasper.Lib.Runs
import Mathlib.Logic.Relation

/-! Programs that call a service, while other parties change its state between the calls.
Assertions that the other parties keep carry a program from call to call, and what they
say of one program from every state they say of every run. -/

namespace Lasper.Lib

/-- A program. Every call is answered or fails, and the program sees which. -/
inductive Calls (E C : Type) (R : C → Type) (α : Type)
  | done (result : Except E α)
  | call (c : C) (next : Except E (R c) → Calls E C R α)

/-- What may happen to the state of the service. -/
structure Service (E C : Type) (R : C → Type) (S : Type) where
  others : S → S → Prop
  answers : (c : C) → S → Except E (R c) → S → Prop

namespace Calls

variable {E C S α β : Type} {R : C → Type}

def bind : Calls E C R α → (α → Calls E C R β) → Calls E C R β
  | .done (.ok a), f => f a
  | .done (.error e), _ => .done (.error e)
  | .call c next, f => .call c fun r => (next r).bind f

instance : Monad (Calls E C R) where
  pure a := .done (.ok a)
  bind := Calls.bind

/-- The call whose failure ends the program. -/
def ask (c : C) : Calls E C R (R c) := .call c .done

def attempt (c : C) : Calls E C R (Except E (R c)) := .call c fun r => .done (.ok r)

def onlyIf (c : Bool) (p : Calls E C R Unit) : Calls E C R Unit := if c then p else pure ()

section Triples

variable (service : Service E C R S) (allowed : S → C → Prop)

def Stable (P : S → Prop) : Prop := ∀ s t, P s → service.others s t → P t

/-- Started in `s`, the program makes allowed calls only, and `Q` holds when it returns. -/
def Guarantees (Q : α → S → Prop) : Calls E C R α → S → Prop
  | .done (.ok a), s => Q a s
  | .done (.error _), _ => True
  | .call c next, s => ∀ t, Relation.ReflTransGen service.others s t →
      allowed t c ∧ ∀ r u, service.answers c t r u → (next r).Guarantees Q u

def Triple (P : S → Prop) (p : Calls E C R α) (Q : α → S → Prop) : Prop :=
  ∀ s, P s → p.Guarantees service allowed Q s

end Triples

section Rules

variable {service : Service E C R S} {allowed : S → C → Prop} {P P' : S → Prop} {Q : α → S → Prop}
  {p : Calls E C R α}

theorem Stable.reached (h : Stable service P) {s t : S} (hP : P s)
    (ht : Relation.ReflTransGen service.others s t) : P t := by
  induction ht with
  | refl => exact hP
  | tail _ hstep ih => exact h _ _ ih hstep

theorem Stable.and (h : Stable service P) (h' : Stable service P') : Stable service fun s => P s ∧ P' s :=
  fun s t hP hstep => ⟨h s t hP.1 hstep, h' s t hP.2 hstep⟩

theorem Stable.imp {A : Prop} (h : A → Stable service P) : Stable service fun s => A → P s :=
  fun s t hP hstep hA => h hA s t (hP hA) hstep

theorem stable_const {A : Prop} : Stable service fun _ => A := fun _ _ hA _ => hA

theorem Triple.before (h : Triple service allowed P p Q) (hP : ∀ s, P' s → P s) :
    Triple service allowed P' p Q :=
  fun s hs => h s (hP s hs)

theorem Guarantees.bind {f : α → Calls E C R β} {Q' : β → S → Prop} {s : S}
    (h : p.Guarantees service allowed Q s) (hf : ∀ a t, Q a t → (f a).Guarantees service allowed Q' t) :
    (p >>= f).Guarantees service allowed Q' s := by
  induction p generalizing s with
  | done result =>
    cases result with
    | ok a => exact hf a s h
    | error e => trivial
  | call c next ih =>
    intro t ht
    obtain ⟨hallowed, hnext⟩ := h t ht
    exact ⟨hallowed, fun r u hu => ih r (hnext r u hu)⟩

theorem Triple.bind {f : α → Calls E C R β} {Q' : β → S → Prop} (h : Triple service allowed P p Q)
    (hf : ∀ a, Triple service allowed (Q a) (f a) Q') : Triple service allowed P (p >>= f) Q' :=
  fun s hs => (h s hs).bind fun a t ht => hf a t ht

theorem triple_pure {a : α} (h : ∀ s, P s → Q a s) :
    Triple service allowed P (pure a : Calls E C R α) Q := h

theorem triple_done {result : Except E α} (h : ∀ a, result = .ok a → ∀ s, P s → Q a s) :
    Triple service allowed P (.done result) Q := by
  intro s hs
  cases result with
  | ok a => exact h a rfl s hs
  | error e => trivial

theorem triple_call {c : C} {next : Except E (R c) → Calls E C R α} (hstable : Stable service P)
    (hallowed : ∀ s, P s → allowed s c)
    (hnext : ∀ s r t, P s → service.answers c s r t → (next r).Guarantees service allowed Q t) :
    Triple service allowed P (.call c next) Q := by
  intro s hs t ht
  have hP := hstable.reached hs ht
  exact ⟨hallowed t hP, fun r u hu => hnext t r u hP hu⟩

theorem triple_ask {c : C} {Q : R c → S → Prop} (hstable : Stable service P)
    (hallowed : ∀ s, P s → allowed s c)
    (hanswer : ∀ s a t, P s → service.answers c s (.ok a) t → Q a t) :
    Triple service allowed P (ask c) Q := by
  apply triple_call hstable hallowed
  intro s r t hs hr
  cases r with
  | ok a => exact hanswer s a t hs hr
  | error e => trivial

theorem triple_attempt {c : C} {Q : Except E (R c) → S → Prop} (hstable : Stable service P)
    (hallowed : ∀ s, P s → allowed s c)
    (hanswer : ∀ s r t, P s → service.answers c s r t → Q r t) :
    Triple service allowed P (attempt c) Q :=
  triple_call hstable hallowed hanswer

theorem triple_ite {c : Prop} [Decidable c] {q : Calls E C R α}
    (h : c → Triple service allowed P p Q) (h' : ¬ c → Triple service allowed P q Q) :
    Triple service allowed P (if c then p else q) Q := by
  split_ifs with hc
  · exact h hc
  · exact h' hc

theorem triple_onlyIf {c : Bool} {p : Calls E C R Unit} {Q : S → Prop}
    (h : c = true → Triple service allowed P p fun _ => Q) (h' : c = false → ∀ s, P s → Q s) :
    Triple service allowed P (onlyIf c p) fun _ => Q := by
  apply triple_ite h
  intro hc
  exact triple_pure (h' (Bool.not_eq_true c ▸ hc))

end Rules

section Sequences

variable {O : Type}

/-- The state of the service, and the rest of the operation under way. -/
structure Session (O E C : Type) (R : C → Type) (S α : Type) where
  state : S
  running : Option (O × Calls E C R α)

inductive Event (O C : Type)
  | others
  | start (op : O)
  | call (c : C)
  | finish (op : O)

variable (service : Service E C R S) (code : O → Calls E C R α)

/-- Operations run one at a time. -/
inductive Step : Session O E C R S α → Event O C → Session O E C R S α → Prop
  | others {s t running} : service.others s t → Step ⟨s, running⟩ .others ⟨t, running⟩
  | start {s} (op) : Step ⟨s, none⟩ (.start op) ⟨s, some (op, code op)⟩
  | call {s t op c next r} : service.answers c s r t →
      Step ⟨s, some (op, .call c next)⟩ (.call c) ⟨t, some (op, next r)⟩
  | finish {s op result} : Step ⟨s, some (op, .done result)⟩ (.finish op) ⟨s, none⟩

variable {service code} {allowed : S → C → Prop} {Q : O → α → S → Prop} {s : S} {as : List (Event O C)}
  {t : Session O E C R S α}

theorem Guarantees.others {Q : α → S → Prop} {p : Calls E C R α} {s t : S} (hstable : ∀ a, Stable service (Q a))
    (h : p.Guarantees service allowed Q s) (ht : service.others s t) : p.Guarantees service allowed Q t := by
  cases p with
  | done result =>
    cases result with
    | ok a => exact hstable a s t h ht
    | error e => trivial
  | call c next => exact fun u hu => h u (hu.head ht)

/-- At every moment of every run, the rest of the operation keeps its promise. -/
theorem run_guarantees (hcode : ∀ op, Triple service allowed (fun _ => True) (code op) (Q op))
    (hstable : ∀ op a, Stable service (Q op a)) (h : Run (Step service code) ⟨s, none⟩ as t) :
    ∀ op p, t.running = some (op, p) → p.Guarantees service allowed (Q op) t.state := by
  refine h.invariant (I := fun t => ∀ op p, t.running = some (op, p) → p.Guarantees service allowed (Q op) t.state)
    ?_ ?_
  · intro op p hp
    cases hp
  · intro t a u ih hstep op p hp
    cases hstep with
    | others hothers => exact (ih op p hp).others (hstable op) hothers
    | start op => cases hp; exact hcode op _ trivial
    | call hanswer => cases hp; exact (ih _ _ rfl _ .refl).2 _ _ hanswer
    | finish => cases hp

end Sequences

end Calls

end Lasper.Lib
