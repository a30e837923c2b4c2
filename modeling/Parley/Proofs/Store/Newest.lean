import Mathlib.Data.List.Pairwise
import Mathlib.Data.String.Basic
import Parley.Store.Tables

/-!
# The newest rows first

The tables sort the rows they give by time, the latest first. Rows that came in order of time are
therefore given in the reverse of the order in which they came: `list_eq` and `recent_eq`.
-/

namespace Parley

/-- Elements none of which may stand before a later one are sorted by turning their order round. -/
theorem Store.mergeSort_eq_reverse {α : Type} {le : α → α → Bool} (htrans : ∀ a b c, le a b → le b c → le a c)
    (htotal : ∀ a b, le a b || le b a) {l : List α} (h : l.Pairwise fun a b => le a b = false) :
    l.mergeSort le = l.reverse := by
  have hreverse : l.reverse.Pairwise fun a b => le a b = true := by
    rw [List.pairwise_reverse]
    refine h.imp fun {a b} hab => ?_
    simpa [hab] using htotal a b
  have hanti : ∀ a ∈ l, ∀ b ∈ l, le a b = true → le b a = true → a = b := by
    intro a ha b hb hab hba
    by_contra hne
    have hapart : l.Pairwise fun a b => ¬ (le a b = true ∧ le b a = true) := by
      refine h.imp fun {a b} hab => ?_
      simp [hab]
    have : Std.Symm fun a b => ¬ (le a b = true ∧ le b a = true) := ⟨fun _ _ hn hc => hn hc.symm⟩
    exact hapart.forall ha hb hne ⟨hab, hba⟩
  have hsorted := List.pairwise_mergeSort htrans htotal l
  have hperm := List.mergeSort_perm l le
  refine List.Perm.eq_of_pairwise (fun a b ha hb => ?_) hsorted hreverse (hperm.trans (List.reverse_perm l).symm)
  exact hanti a (hperm.mem_iff.mp ha) b (List.mem_reverse.mp hb)

theorem Store.flatMap_ite_singleton {α : Type} (p : α → Bool) (l : List α) :
    (l.flatMap fun a => if p a then [a] else []) = l.filter p := by
  induction l with
  | nil => rfl
  | cons a l ih =>
    rw [List.flatMap_cons, ih, List.filter_cons]
    split_ifs <;> rfl

namespace Tables

open Store

variable {t : Tables} {room user : String}

/-! ### The order of the rows -/

theorem newerConversation_trans (a b c : Conversation) :
    newerConversation a b → newerConversation b c → newerConversation a c := by
  simp only [newerConversation, decide_eq_true_eq]
  omega

theorem newerConversation_total (a b : Conversation) : newerConversation a b || newerConversation b a := by
  simp only [newerConversation, Bool.or_eq_true, decide_eq_true_eq]
  omega

theorem newerMessage_iff {a b : MessageRow} : newerMessage a b = true ↔
    b.createdAt.micros < a.createdAt.micros ∨ a.createdAt.micros = b.createdAt.micros ∧ b.id ≤ a.id := by
  simp only [newerMessage, Bool.or_eq_true, Bool.and_eq_true, decide_eq_true_eq, beq_iff_eq]
  rw [le_iff_lt_or_eq, eq_comm (a := a.id)]

theorem newerMessage_trans (a b c : MessageRow) : newerMessage a b → newerMessage b c → newerMessage a c := by
  simp only [newerMessage_iff]
  rintro (h | ⟨h, hid⟩) (h' | ⟨h', hid'⟩)
  · exact .inl (by omega)
  · exact .inl (by omega)
  · exact .inl (by omega)
  · exact .inr ⟨by omega, hid'.trans hid⟩

theorem newerMessage_total (a b : MessageRow) : newerMessage a b || newerMessage b a := by
  simp only [Bool.or_eq_true, newerMessage_iff]
  rcases le_total a.id b.id with hid | hid
  · by_cases h : b.createdAt.micros < a.createdAt.micros
    · exact .inl (.inl h)
    · rcases eq_or_ne b.createdAt.micros a.createdAt.micros with h' | h'
      · exact .inr (.inr ⟨h', hid⟩)
      · exact .inr (.inl (by omega))
  · by_cases h : a.createdAt.micros < b.createdAt.micros
    · exact .inr (.inl h)
    · rcases eq_or_ne a.createdAt.micros b.createdAt.micros with h' | h'
      · exact .inl (.inr ⟨h', hid⟩)
      · exact .inl (.inl (by omega))

/-! ### Rows in order of time -/

def ConversationsInOrder (cs : List Conversation) : Prop :=
  cs.Pairwise fun a b => a.createdAt.micros < b.createdAt.micros

def MessagesInOrder (ms : List MessageRow) : Prop := ms.Pairwise fun a b => a.createdAt.micros < b.createdAt.micros

theorem mergeSort_newerConversation {cs : List Conversation} (h : ConversationsInOrder cs) :
    cs.mergeSort newerConversation = cs.reverse := by
  refine mergeSort_eq_reverse newerConversation_trans newerConversation_total (h.imp fun {a b} hab => ?_)
  simpa [newerConversation] using hab

theorem mergeSort_newerMessage {ms : List MessageRow} (h : MessagesInOrder ms) :
    ms.mergeSort newerMessage = ms.reverse := by
  refine mergeSort_eq_reverse newerMessage_trans newerMessage_total (h.imp fun {a b} hab => ?_)
  rw [Bool.eq_false_iff, Ne, newerMessage_iff]
  omega

/-- With each membership in one row, the join gives a conversation once, if the person takes part in it. -/
theorem joined_eq (hnodup : t.participants.Nodup) (c : Conversation) :
    ((t.participants.filter fun p => p.1 == c.id && p.2 == user).map fun _ => c) =
      if t.participants.contains (c.id, user) then [c] else [] := by
  have hfilter : (t.participants.filter fun p => p.1 == c.id && p.2 == user) =
      t.participants.filter fun p => p == (c.id, user) := rfl
  rw [hfilter, List.filter_beq, List.map_replicate, hnodup.count]
  simp only [List.contains_iff_mem]
  split_ifs <;> rfl

/-- **The conversations of a person**, where they came in order of time. -/
theorem list_eq (h : ConversationsInOrder t.conversations) (hnodup : t.participants.Nodup) (limit : Int) :
    t.list user limit =
      (t.conversations.reverse.filter fun c => t.participants.contains (c.id, user)).take (rows limit) := by
  have hjoin : (t.conversations.flatMap fun c =>
      (t.participants.filter fun p => p.1 == c.id && p.2 == user).map fun _ => c) =
      t.conversations.filter fun c => t.participants.contains (c.id, user) := by
    rw [← flatMap_ite_singleton]
    exact List.flatMap_congr fun c _ => joined_eq hnodup c
  rw [list]
  simp only [hjoin]
  rw [mergeSort_newerConversation (h.filter _), List.filter_reverse]

/-- **The latest messages of a room**, where they came in order of time. -/
theorem recent_eq (h : MessagesInOrder t.messages) (limit : Int) :
    (t.recent room limit).reverse =
      ((t.messages.filter (·.room == room)).drop
        ((t.messages.filter (·.room == room)).length - rows limit)).map t.withAuthor := by
  rw [recent, mergeSort_newerMessage (h.filter _), List.take_reverse, List.map_reverse, List.reverse_reverse]

end Tables

end Parley
