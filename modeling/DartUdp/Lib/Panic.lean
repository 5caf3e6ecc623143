import DartUdp.Lib.Machine
import DartUdp.Lib.Prog

/-!
# Arithmetic that panics

A plain `+` or `-` of machine integers panics where it would leave the range.
A program modelled with naturals says nothing of that, so it is written a
second time with the operations of the machine, and the rules below show that
the second does what the first does. What they ask for on the way is what keeps
the machine within its range.
-/

namespace DartUdp.Lib

/-- What stops a program: an error it answers, or a panic. -/
inductive Halt (ε : Type) where
  | error (e : ε)
  | panic
deriving DecidableEq, Repr

variable {ε σ α β : Type}

/-- A program without plain arithmetic. -/
def safe (m : EStateM ε σ α) : EStateM (Halt ε) σ α := fun s =>
  match m s with
  | .ok a s' => .ok a s'
  | .error e s' => .error (.error e) s'

/-- `a - b` of two `u64`. -/
def plainSub (a b : Nat) : EStateM (Halt ε) σ Nat :=
  if b ≤ a then pure (a - b) else throw .panic

/-- `a + b` of two `u64`. -/
def plainAdd (a b : Nat) : EStateM (Halt ε) σ Nat :=
  if a + b ≤ u64Max then pure (a + b) else throw .panic

/-- From `s` the program `c` does what `m` does; so it does not panic. -/
def Agrees (c : EStateM (Halt ε) σ α) (m : EStateM ε σ α) (s : σ) : Prop := c s = safe m s

variable {c : EStateM (Halt ε) σ α} {m : EStateM ε σ α} {s : σ}
  {k : α → EStateM (Halt ε) σ β} {l : α → EStateM ε σ β}

theorem Agrees.of_safe : Agrees (safe m) m s := rfl

theorem Agrees.pure (a : α) : Agrees (pure a) (pure a : EStateM ε σ α) s := rfl

theorem Agrees.throw (e : ε) : Agrees (throw (.error e)) (throw e : EStateM ε σ α) s := rfl

/-- The parts of a sequence agree one after the other. -/
theorem Agrees.bind (h : Agrees c m s)
    (hk : Ends m s (fun a s' => Agrees (k a) (l a) s') fun _ _ => True) :
    Agrees (c >>= k) (m >>= l) s := by
  have hrun : c s = safe m s := h
  cases hm : m s with
  | ok a s' =>
      have hc : c s = .ok a s' := by rw [hrun, safe, hm]
      have hrest : k a s' = safe (l a) s' := hk.ok hm
      show (c >>= k) s = safe (m >>= l) s
      rw [bind_ok hc, hrest, safe, safe, bind_ok hm]
  | error e s' =>
      have hc : c s = .error (.error e) s' := by rw [hrun, safe, hm]
      show (c >>= k) s = safe (m >>= l) s
      rw [bind_error hc, safe, bind_error hm]

theorem Agrees.get_bind {k : σ → EStateM (Halt ε) σ β} {l : σ → EStateM ε σ β}
    (h : Agrees (k s) (l s) s) : Agrees (get >>= k) (get >>= l) s :=
  Agrees.bind (c := get) (m := get) rfl h

theorem Agrees.set_bind {k : PUnit → EStateM (Halt ε) σ β} {l : PUnit → EStateM ε σ β} {s' : σ}
    (h : Agrees (k ⟨⟩) (l ⟨⟩) s') : Agrees (set s' >>= k) (set s' >>= l) s :=
  Agrees.bind (c := set s') (m := set s') rfl h

/-- A part without arithmetic, then what agrees wherever that part ends. -/
theorem Agrees.safe_bind (hk : Ends m s (fun a s' => Agrees (k a) (l a) s') fun _ _ => True) :
    Agrees (safe m >>= k) (m >>= l) s := Agrees.bind .of_safe hk

/-- The last part, with what is made of its answer. -/
theorem Agrees.last (h : Agrees c m s) (f : α → β) :
    Agrees (c >>= fun a => Pure.pure (f a)) (m >>= fun a => Pure.pure (f a)) s :=
  Agrees.bind h (Ends.of_forall (fun _ _ => .pure _) fun _ _ => trivial)

theorem Agrees.ite {p : Prop} [Decidable p] {c' : EStateM (Halt ε) σ α} {m' : EStateM ε σ α}
    (h : p → Agrees c m s) (h' : ¬ p → Agrees c' m' s) :
    Agrees (if p then c else c') (if p then m else m') s := by
  by_cases hp : p
  · rw [if_pos hp, if_pos hp]
    exact h hp
  · rw [if_neg hp, if_neg hp]
    exact h' hp

theorem Agrees.sub {a b : Nat} {k : Nat → EStateM (Halt ε) σ β} {m : EStateM ε σ β} (hle : b ≤ a)
    (h : Agrees (k (a - b)) m s) : Agrees (plainSub a b >>= k) m s := by
  unfold plainSub
  rw [if_pos hle]
  exact h

theorem Agrees.add {a b : Nat} {k : Nat → EStateM (Halt ε) σ β} {m : EStateM ε σ β}
    (hle : a + b ≤ u64Max) (h : Agrees (k (a + b)) m s) : Agrees (plainAdd a b >>= k) m s := by
  unfold plainAdd
  rw [if_pos hle]
  exact h

end DartUdp.Lib
