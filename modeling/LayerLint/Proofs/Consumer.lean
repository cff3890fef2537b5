import LayerLint.Rule.SharedModule
import Mathlib.Data.List.Sort

/-! # Consumers in listing order

Listings put consumers in a strict order that any two different ones stand in. A list in that order
is determined by its members, so a set of consumers has one listing only.
-/

namespace LayerLint

namespace Consumer

variable {first second third consumer other : Consumer} {consumers : List Consumer}

theorem before_iff : first.before second = true ↔ first.rank < second.rank ∨
    (first.rank = second.rank ∧ first.key < second.key) := by
  simp [before]

theorem eq_of_rank_eq (hrank : first.rank = second.rank) (hkey : first.key = second.key) :
    first = second := by
  cases first <;> cases second <;> simp_all [rank, key]

theorem not_before_self (consumer : Consumer) : ¬ consumer.before consumer = true := by
  intro h
  rcases before_iff.mp h with hlt | ⟨-, hlt⟩
  · exact Nat.lt_irrefl _ hlt
  · exact String.lt_irrefl _ hlt

theorem before_trans (hfirst : first.before second = true) (hsecond : second.before third = true) :
    first.before third = true := by
  rw [before_iff] at *
  rcases hfirst with hlt | ⟨heq, hlt⟩
  · left
    omega
  · rcases hsecond with hlt' | ⟨heq', hlt'⟩
    · left
      omega
    · exact .inr ⟨heq.trans heq', String.lt_trans hlt hlt'⟩

theorem before_of_not_before (hne : first ≠ second) (h : ¬ first.before second = true) :
    second.before first = true := by
  rw [before_iff, not_or, not_and] at h
  rw [before_iff]
  by_cases hrank : first.rank = second.rank
  · refine .inr ⟨hrank.symm, ?_⟩
    apply Classical.byContradiction
    intro hnot
    have hkey := String.le_antisymm (String.not_lt.mp hnot) (String.not_lt.mp (h.2 hrank))
    exact hne (eq_of_rank_eq hrank hkey)
  · left
    omega

instance : Std.Irrefl fun first second : Consumer => first.before second = true :=
  ⟨not_before_self⟩

instance : Std.Antisymm fun first second : Consumer => first.before second = true :=
  ⟨fun _ _ hlt hgt => (not_before_self _ (before_trans hlt hgt)).elim⟩

theorem mem_insert : other ∈ insert consumer consumers ↔ other = consumer ∨ other ∈ consumers := by
  induction consumers with
  | nil => simp [insert]
  | cons next rest ih =>
      rw [insert]
      split
      next => simp
      next =>
        split
        next heq => simp [heq]
        next => simp [ih, or_left_comm]

/-- The list shows exactly the consumers with a property, in listing order. -/
def Lists (consumers : List Consumer) (holds : Consumer → Prop) : Prop :=
  consumers.Pairwise (fun first second => first.before second = true) ∧
    ∀ consumer, consumer ∈ consumers ↔ holds consumer

theorem pairwise_insert
    (h : consumers.Pairwise fun first second => first.before second = true) :
    (insert consumer consumers).Pairwise fun first second => first.before second = true := by
  induction consumers with
  | nil => simp [insert]
  | cons next rest ih =>
      obtain ⟨hnext, hrest⟩ := List.pairwise_cons.mp h
      rw [insert]
      split
      next hbefore =>
        refine List.pairwise_cons.mpr ⟨List.forall_mem_cons.mpr ⟨hbefore, ?_⟩, h⟩
        intro other hmem
        exact before_trans hbefore (hnext other hmem)
      next hnot =>
        split
        next => exact h
        next hne =>
          refine List.pairwise_cons.mpr ⟨?_, ih hrest⟩
          intro other hmem
          rcases mem_insert.mp hmem with rfl | hmem
          · exact before_of_not_before hne hnot
          · exact hnext other hmem

theorem Lists.insert {holds : Consumer → Prop} (h : Lists consumers holds) (consumer : Consumer) :
    Lists (insert consumer consumers) fun other => other = consumer ∨ holds other := by
  refine ⟨pairwise_insert h.1, ?_⟩
  intro other
  rw [mem_insert, h.2]

theorem Lists.eq {holds : Consumer → Prop} {others : List Consumer} (h : Lists consumers holds)
    (h' : Lists others holds) : consumers = others :=
  h.1.eq_of_mem_iff h'.1 fun consumer => (h.2 consumer).trans (h'.2 consumer).symm

end Consumer

end LayerLint
