
namespace Except

variable {ε α β : Type} {x : Except ε α} {b : β}

theorem bind_eq_ok {f : α → Except ε β} : (x >>= f) = .ok b ↔ ∃ a, x = .ok a ∧ f a = .ok b := by
  cases x with
  | error e => simp [bind, Except.bind]
  | ok a => simp [bind, Except.bind]

theorem map_eq_ok {f : α → β} : x.map f = .ok b ↔ ∃ a, x = .ok a ∧ f a = b := by
  cases x with
  | error e => simp [Except.map]
  | ok a => simp [Except.map]

theorem guard_eq_ok {c : Prop} [Decidable c] {e : ε} {f : α → Except ε β} {y : Except ε β} :
    (if c then throw e >>= f else y) = .ok b ↔ ¬ c ∧ y = .ok b := by
  by_cases holds : c
  · simp [holds, throw, throwThe, MonadExceptOf.throw, bind, Except.bind]
  · simp [holds]

theorem exists_first_of_error {f : α → Except ε β} {xs : List α} {x : α} {e : ε}
    (member : x ∈ xs) (failed : f x = .error e) :
    ∃ before first after d, xs = before ++ first :: after ∧
      (∀ y ∈ before, ∀ d, f y ≠ .error d) ∧ f first = .error d ∧ xs.mapM f = .error d := by
  induction xs with
  | nil => cases member
  | cons y rest ih =>
      cases first : f y with
      | error d =>
          refine ⟨[], y, rest, d, rfl, nofun, first, ?_⟩
          rw [List.mapM_cons, first]
          rfl
      | ok b =>
          have later : x ∈ rest := by
            rcases List.mem_cons.1 member with rfl | later
            · cases first.symm.trans failed
            · exact later
          obtain ⟨before, z, after, d, rfl, clean, refused, read⟩ := ih later
          refine ⟨y :: before, z, after, d, rfl, fun y' member d' => ?_, refused, ?_⟩
          · rcases List.mem_cons.1 member with rfl | member
            · rw [first]
              exact nofun
            · exact clean y' member d'
          · rw [List.mapM_cons, first, read]
            rfl

theorem foldlM_congr {f g : β → α → Except ε β} {xs : List α}
    (same : ∀ x ∈ xs, ∀ b, f b x = g b x) (b : β) : xs.foldlM f b = xs.foldlM g b := by
  induction xs generalizing b with
  | nil => rfl
  | cons x rest ih =>
      rw [List.foldlM_cons, List.foldlM_cons, same x List.mem_cons_self]
      exact congrArg (g b x >>= ·) (funext (ih fun y later =>
        same y (List.mem_cons_of_mem x later)))

theorem foldlM_eq_map_mapM {γ : Type} {read : γ → Except ε β} {f : α → β → α} {xs : List γ}
    {a : α} : (xs.foldlM (fun a x => do return f a (← read x)) a) =
      (xs.mapM read).map (·.foldl f a) := by
  induction xs generalizing a with
  | nil => rfl
  | cons x rest ih =>
      rw [List.foldlM_cons, List.mapM_cons]
      cases read x with
      | error e => rfl
      | ok b =>
          refine (ih (a := f a b)).trans ?_
          cases rest.mapM read <;> rfl

end Except
