
namespace Volley

variable {ι α σ : Type} {gives : ι → α → Prop} {items : List ι} {start : α}

/-- The outcome is what the last of the items that give anything gives, and what was there at the
start if none of them does. -/
inductive Latest (gives : ι → α → Prop) (items : List ι) (start : α) : α → Prop
  | kept (silent : ∀ i ∈ items, ∀ a, ¬ gives i a) : Latest gives items start start
  | given (before : List ι) {i : ι} {after : List ι} {a : α} (split : items = before ++ i :: after)
      (told : gives i a) (silent : ∀ j ∈ after, ∀ b, ¬ gives j b) : Latest gives items start a

theorem Latest.cons {i : ι} {first last : α} (latest : Latest gives items first last)
    (own : ∀ a, gives i a → first = a) (others : (∀ a, ¬ gives i a) → first = start) :
    Latest gives (i :: items) start last := by
  cases latest with
  | given before split told silent =>
      exact .given (i :: before) (congrArg (i :: ·) split) told silent
  | kept silent =>
      by_cases speaks : ∃ a, gives i a
      · obtain ⟨a, told⟩ := speaks
        rw [own a told]
        exact .given [] rfl told silent
      · have mute : ∀ a, ¬ gives i a := fun a told => speaks ⟨a, told⟩
        rw [others mute]
        refine .kept fun j member => ?_
        rcases List.mem_cons.1 member with rfl | later
        · exact mute
        · exact silent j later

theorem latest_foldl {step : σ → ι → σ} (part : σ → α)
    (own : ∀ i ∈ items, ∀ s a, gives i a → part (step s i) = a)
    (others : ∀ i ∈ items, ∀ s, (∀ a, ¬ gives i a) → part (step s i) = part s) (s : σ) :
    Latest gives items (part s) (part (items.foldl step s)) := by
  induction items generalizing s with
  | nil => exact .kept nofun
  | cons i rest ih =>
      have later := ih (fun j member => own j (List.mem_cons_of_mem i member))
        (fun j member => others j (List.mem_cons_of_mem i member)) (step s i)
      exact later.cons (own i List.mem_cons_self s) (others i List.mem_cons_self s)

theorem Latest.eq_start {last : α} (latest : Latest gives items start last)
    (silent : ∀ i ∈ items, ∀ a, ¬ gives i a) : last = start := by
  cases latest with
  | kept => rfl
  | given before split told =>
      exact absurd told (silent _ (split ▸ List.mem_append_right _ List.mem_cons_self) _)

theorem Latest.isSome {gives : ι → Option α → Prop} {start last : Option α}
    (latest : Latest gives items start last)
    (speaks : ∀ i a, gives i a → a.isSome) (given : start.isSome) : last.isSome := by
  cases latest with
  | kept => exact given
  | given _ _ told => exact speaks _ _ told

end Volley
