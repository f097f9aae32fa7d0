import Mathlib

-- Sequential code that is suspended at each of its requests, until it is given what it has asked for.
namespace Tasks

structure Interface where
  Request : Type
  Reply   : Request → Type

inductive Task (I : Interface) (α : Type)
  | done (a : α)
  | await (r : I.Request) (next : I.Reply r → Task I α)

namespace Task

variable {I : Interface} {α β : Type}

protected def bind : Task I α → (α → Task I β) → Task I β
  | .done a, k       => k a
  | .await r next, k => .await r fun reply => (next reply).bind k

instance : Monad (Task I) where
  pure := Task.done
  bind := Task.bind

def request (r : I.Request) : Task I (I.Reply r) :=
  .await r .done

def isDone : Task I α → Bool
  | .done _ => true
  | _       => false

-- What the task waits for.
def request? : Task I α → Option I.Request
  | .await r _ => some r
  | _          => none

theorem bind_assoc {γ : Type} (t : Task I α) (k : α → Task I β) (l : β → Task I γ) :
    t >>= k >>= l = t >>= fun a => k a >>= l := by
  induction t
  case done a          => rfl
  case await r next ih => exact congrArg (Task.await r) <| funext ih

-- All that a task ever asks for is of one kind.
def Only (P : I.Request → Prop) : Task I α → Prop
  | .done _       => True
  | .await r next => P r ∧ ∀ reply, Only P (next reply)

section Only

variable {P Q : I.Request → Prop} {t : Task I α} {k : α → Task I β}

theorem Only.bind (ht : Only P t) (hk : ∀ a, Only P (k a)) : Only P (t >>= k) := by
  induction t
  case done a          => exact hk a
  case await r next ih => exact ⟨ht.left, fun reply => ih reply (ht.right reply)⟩

theorem Only.mono (ht : Only P t) (h : ∀ r, P r → Q r) : Only Q t := by
  induction t
  case done a          => trivial
  case await r next ih => exact ⟨h r ht.left, fun reply => ih reply (ht.right reply)⟩

end Only

section Run

variable {σ : Type} (handle : (r : I.Request) → σ → I.Reply r × σ)

-- What a task comes to, where nothing else happens.
def run : Task I α → σ → α × σ
  | .done a, s       => (a, s)
  | .await r next, s => run (next (handle r s).fst) (handle r s).snd

-- What is left after some steps.
def steps : Nat → Task I α → σ → Task I α × σ
  | 0, t, s                 => (t, s)
  | _ + 1, .done a, s       => (.done a, s)
  | n + 1, .await r next, s => steps n (next (handle r s).fst) (handle r s).snd

-- A condition on each request and on the state in which it is made.
def Along (ok : σ → I.Request → Prop) : Task I α → σ → Prop
  | .done _, _       => True
  | .await r next, s => ok s r ∧ Along ok (next (handle r s).fst) (handle r s).snd

-- The same, for a number of steps.
def AlongSteps (ok : σ → I.Request → Prop) : Nat → Task I α → σ → Prop
  | 0, _, _                 => True
  | _ + 1, .done _, _       => True
  | n + 1, .await r next, s =>
    ok s r ∧ AlongSteps ok n (next (handle r s).fst) (handle r s).snd

variable {handle} {ok : σ → I.Request → Prop} {inv : σ → Prop}

instance Along.decidable [h : ∀ s r, Decidable (ok s r)] :
    ∀ (t : Task I α) (s : σ), Decidable (Along handle ok t s)
  | .done _, _       => isTrue trivial
  | .await r next, s =>
    @instDecidableAnd _ _ (h s r) (Along.decidable (next (handle r s).fst) (handle r s).snd)

instance AlongSteps.decidable [h : ∀ s r, Decidable (ok s r)] :
    ∀ (n : Nat) (t : Task I α) (s : σ), Decidable (AlongSteps handle ok n t s)
  | 0, _, _                 => isTrue trivial
  | _ + 1, .done _, _       => isTrue trivial
  | n + 1, .await r next, s =>
    @instDecidableAnd _ _ (h s r) (AlongSteps.decidable n (next (handle r s).fst) (handle r s).snd)

variable (handle) in
theorem run_bind (t : Task I α) (k : α → Task I β) (s : σ) :
    (t >>= k).run handle s = (k (t.run handle s).fst).run handle (t.run handle s).snd := by
  induction t generalizing s
  case done a          => rfl
  case await r next ih => exact ih _ _

theorem along_bind (t : Task I α) (k : α → Task I β) (s : σ) : Along handle ok (t >>= k) s ↔
    Along handle ok t s ∧ Along handle ok (k (t.run handle s).fst) (t.run handle s).snd := by
  induction t generalizing s
  case done a          => exact (and_iff_right trivial).symm
  case await r next ih =>
    have hiff := ih (handle r s).fst (handle r s).snd
    exact (and_congr_right fun _ => hiff).trans and_assoc.symm

-- What each request keeps under the condition, a task keeps.
theorem Along.run (h : ∀ s r, inv s → ok s r → inv (handle r s).snd) {t : Task I α} {s : σ}
    (ht : Along handle ok t s) (hs : inv s) : inv (t.run handle s).snd := by
  induction t generalizing s
  case done a          => exact hs
  case await r next ih => exact ih _ ht.right <| h s r hs ht.left

theorem AlongSteps.steps (h : ∀ s r, inv s → ok s r → inv (handle r s).snd) {n : Nat} {t : Task I α}
    {s : σ} (ht : AlongSteps handle ok n t s) (hs : inv s) : inv (t.steps handle n s).snd := by
  induction n generalizing t s
  case zero      => exact hs
  case succ n ih =>
    cases t
    case done a       => exact hs
    case await r next => exact ih ht.right <| h s r hs ht.left

-- What no request changes, no task changes.
theorem Only.keeps {P : I.Request → Prop} {γ : Type} {g : σ → γ} {t : Task I α} (ht : Only P t)
    (h : ∀ r s, P r → g (handle r s).snd = g s) (s : σ) : g (t.run handle s).snd = g s := by
  induction t generalizing s
  case done a          => rfl
  case await r next ih => exact (ih _ (ht.right _) _).trans <| h r s ht.left

end Run

end Task
end Tasks
