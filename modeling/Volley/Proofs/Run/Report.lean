import Volley.Proofs.Run.Trace
import Volley.Proofs.Tally
import Volley.Proofs.Time

namespace Volley

namespace Report
open Run

variable {s : State} {ended : List User} {count : Nat}

def survivors (s : State) : List User := s.users.filter fun u => !u.phase.isCrashed

theorem mem_survivors {u : User} :
    u ∈ survivors s ↔ u ∈ s.users ∧ u.phase.isCrashed = false := by
  simp [survivors]

theorem survivors_sorted (numbered : s.Numbered count) :
    (survivors s).Pairwise fun u v => u.id < v.id := by
  have ordered : (s.users.map (·.id)).Pairwise (· < ·) := by
    rw [numbered.map_id]
    exact List.pairwise_lt_range
  exact (List.pairwise_map.1 ordered).filter _

theorem length_survivors (s : State) :
    (survivors s).length + s.users.countP (·.phase.isCrashed) = s.users.length := by
  rw [survivors, ← List.countP_eq_length_filter, Nat.add_comm]
  simpa using (List.length_eq_countP_add_countP fun u : User => u.phase.isCrashed).symm

theorem users_ofEnded (numbered : s.Numbered count) (order : ended.Perm s.users) :
    (ofEnded s ended).users = (survivors s).map .ofUser := by
  have same := (List.mergeSort_perm _ fun a b : UserReport => decide (a.id ≤ b.id)).trans
    ((order.filter fun u => !u.phase.isCrashed).map UserReport.ofUser)
  have sorted : (ofEnded s ended).users.Pairwise fun a b => decide (a.id ≤ b.id) = true := by
    apply List.pairwise_mergeSort
    · simp only [decide_eq_true_eq]
      exact fun _ _ _ => Nat.le_trans
    · simp only [Bool.or_eq_true, decide_eq_true_eq]
      exact fun a b => Nat.le_total a.id b.id
  have expected : ((survivors s).map UserReport.ofUser).Pairwise fun a b => a.id ≤ b.id :=
    List.pairwise_map.2 ((survivors_sorted numbered).imp Nat.le_of_lt)
  -- Both lists are sorted by number, and no two users have one number.
  refine List.Perm.eq_of_pairwise ?_ (sorted.imp of_decide_eq_true) expected same
  intro a b first second lower upper
  obtain ⟨u, survived, rfl⟩ := List.mem_map.1 (same.mem_iff.1 first)
  obtain ⟨v, other, rfl⟩ := List.mem_map.1 second
  rw [numbered.eq_of_id (mem_survivors.1 survived).1 (mem_survivors.1 other).1
    (Nat.le_antisymm lower upper)]

theorem crashed_ofEnded (order : ended.Perm s.users) :
    (ofEnded s ended).crashed = s.users.countP (·.phase.isCrashed) :=
  order.countP_eq _

theorem ofEnded_eq_ofState (numbered : s.Numbered count) (order : ended.Perm s.users) :
    ofEnded s ended = ofState s := by
  have users := (users_ofEnded numbered order).trans (users_ofEnded numbered (.refl _)).symm
  have crashed := (crashed_ofEnded order).trans (crashed_ofEnded (.refl _)).symm
  simp only [ofState, ofEnded] at users crashed ⊢
  rw [users, crashed]

end Report

end Volley
