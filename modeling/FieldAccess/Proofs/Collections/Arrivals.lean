/-
  The order in which an ordered set lists its members.

  1. **Histories** — a history is what was asked of a set, element by element: put in, or taken out.
     `Present` and `ArrivedAt` read a history without any set: an element is present if it was not taken
     out after some time it was put in, and it arrived when it was last put in while absent.

  2. **The crux** — `lists_replay`: a set that followed a history lists the elements that are present, by
     the time of their arrival.  One more attempt changes nobody's arrival but that of an element that
     was absent, and this one is later than all others.

  3. **Field sets** — every way to make and change a field set is a history of single attempts.

  4. **Main statement** — `listing_of_changes`: how a field set lists its fields, what its changes
     answer, and that all questions about it are questions about its listing.
-/
import FieldAccess.FieldSet
import Mathlib.Data.List.Induction

namespace FieldAccess

namespace OrderedSet

/-! ## Histories -/

/-- What is asked of a set about one element. -/
inductive Attempt (α : Type) where
  | put (a : α)
  | drop (a : α)
deriving DecidableEq

variable {α : Type}

/-- The element was put in, and not taken out after that. -/
def Present (h : List (Attempt α)) (a : α) : Prop :=
  ∃ before after, h = before ++ .put a :: after ∧ .drop a ∉ after

/-- The latest attempt to put in the element that found it absent is the one at place `i`. -/
structure ArrivedAt (h : List (Attempt α)) (a : α) (i : Nat) : Prop where
  put : h[i]? = some (.put a)
  absent : ¬ Present (h.take i) a
  latest : ∀ j, i < j → h[j]? = some (.put a) → Present (h.take j) a

theorem not_present_nil (a : α) : ¬ Present [] a := by
  rintro ⟨before, after, he, -⟩
  cases before <;> cases he

/-- After one more attempt, an element is present if this one put it in, or did not take it out. -/
theorem present_concat {h : List (Attempt α)} {e : Attempt α} {a : α} :
    Present (h ++ [e]) a ↔ e = .put a ∨ e ≠ .drop a ∧ Present h a := by
  constructor
  · rintro ⟨before, after, he, hd⟩
    rcases List.eq_nil_or_concat after with rfl | ⟨after, x, rfl⟩
    · -- the attempt that put it in is the last one
      have hlast := (List.append_inj' he rfl).2
      exact Or.inl (List.cons.inj hlast).1
    · have hsplit : h ++ [e] = (before ++ .put a :: after) ++ [x] := by
        rw [he]
        simp
      obtain ⟨rfl, hx⟩ := List.append_inj' hsplit rfl
      obtain rfl := (List.cons.inj hx).1
      rw [List.concat_eq_append, List.mem_append, not_or] at hd
      exact Or.inr ⟨fun h => hd.2 (h ▸ List.mem_singleton_self _), before, after, rfl, hd.1⟩
  · rintro (rfl | ⟨hne, before, after, rfl, hd⟩)
    · exact ⟨h, [], rfl, List.not_mem_nil⟩
    · refine ⟨before, after ++ [e], by simp, ?_⟩
      rw [List.mem_append, List.mem_singleton, not_or]
      exact ⟨hd, Ne.symm hne⟩

/-- An element arrives at one time only. -/
theorem ArrivedAt.unique {h : List (Attempt α)} {a : α} {i j : Nat} (hi : ArrivedAt h a i)
    (hj : ArrivedAt h a j) : i = j := by
  rcases Nat.lt_trichotomy i j with hlt | heq | hgt
  · exact absurd (hi.latest j hlt hj.put) hj.absent
  · exact heq
  · exact absurd (hj.latest i hgt hi.put) hi.absent

theorem ArrivedAt.lt_length {h : List (Attempt α)} {a : α} {i : Nat} (hi : ArrivedAt h a i) :
    i < h.length := (List.getElem?_eq_some_iff.1 hi.put).1

/-- One more attempt leaves the time of arrival, unless it puts in an absent element. -/
theorem ArrivedAt.concat {h : List (Attempt α)} {e : Attempt α} {a : α} {i : Nat}
    (hi : ArrivedAt h a i) (he : e = .put a → Present h a) : ArrivedAt (h ++ [e]) a i := by
  have hlt := hi.lt_length
  constructor
  · rw [List.getElem?_append_left hlt]
    exact hi.put
  · rw [List.take_append_of_le_length (Nat.le_of_lt hlt)]
    exact hi.absent
  · intro j hij hj
    rcases Nat.lt_trichotomy j h.length with hjl | rfl | hjl
    · rw [List.getElem?_append_left hjl] at hj
      rw [List.take_append_of_le_length (Nat.le_of_lt hjl)]
      exact hi.latest j hij hj
    · rw [List.getElem?_concat_length, Option.some.injEq] at hj
      rw [List.take_left]
      exact he hj
    · have hnone : (h ++ [e])[j]? = none := by
        rw [List.getElem?_eq_none_iff, List.length_append, List.length_singleton]
        omega
      rw [hnone] at hj
      cases hj

/-- An absent element that is put in arrives now. -/
theorem arrivedAt_concat_put {h : List (Attempt α)} {a : α} (ha : ¬ Present h a) :
    ArrivedAt (h ++ [.put a]) a h.length := by
  refine ⟨List.getElem?_concat_length, ?_, ?_⟩
  · rw [List.take_left]
    exact ha
  · intro j hj hput
    have hlt := (List.getElem?_eq_some_iff.1 hput).1
    rw [List.length_append, List.length_singleton] at hlt
    omega

/-- A set lists what a history leaves, in the order of arrival. -/
structure Lists (s : OrderedSet α) (h : List (Attempt α)) : Prop where
  nodup : s.toList.Nodup
  mem_iff : ∀ a, a ∈ s.toList ↔ Present h a
  arrived : ∀ a ∈ s.toList, ∃ i, ArrivedAt h a i
  sorted : s.toList.Pairwise fun a b => ∀ i j, ArrivedAt h a i → ArrivedAt h b j → i < j

theorem lists_empty : (∅ : OrderedSet α).Lists [] where
  nodup := List.nodup_nil
  mem_iff a := by
    constructor
    · intro h
      cases h
    · intro h
      exact absurd h (not_present_nil a)
  arrived _ h := by cases h
  sorted := List.Pairwise.nil

/-- Members whose arrival one more attempt leaves alone stay in order. -/
theorem Lists.sorted_concat {s : OrderedSet α} {h : List (Attempt α)} (hs : s.Lists h)
    {e : Attempt α} {as : List α} (hsub : as.Sublist s.toList)
    (he : ∀ a ∈ as, e = .put a → Present h a) :
    as.Pairwise fun a b => ∀ i j, ArrivedAt (h ++ [e]) a i → ArrivedAt (h ++ [e]) b j → i < j := by
  refine (hs.sorted.sublist hsub).imp_of_mem ?_
  intro a b ha hb hab i j hi hj
  obtain ⟨i', hi'⟩ := hs.arrived a (hsub.subset ha)
  obtain ⟨j', hj'⟩ := hs.arrived b (hsub.subset hb)
  rw [hi.unique (hi'.concat (he a ha)), hj.unique (hj'.concat (he b hb))]
  exact hab i' j' hi' hj'

variable [DecidableEq α]

/-- Makes one attempt. -/
def attempt (s : OrderedSet α) : Attempt α → OrderedSet α
  | .put a => s.insert a
  | .drop a => s.erase a

/-- Makes the attempts of a history. -/
def replay (s : OrderedSet α) (h : List (Attempt α)) : OrderedSet α := h.foldl attempt s

theorem replay_append (s : OrderedSet α) (h h' : List (Attempt α)) :
    s.replay (h ++ h') = (s.replay h).replay h' := List.foldl_append

/-- Inserting a list is a history of its own. -/
theorem replay_map_put (s : OrderedSet α) (as : List α) :
    s.replay (as.map .put) = s.extend as := List.foldl_map

/-- Whoever is put in while present stays where it is. -/
theorem Lists.insert_present {s : OrderedSet α} {h : List (Attempt α)} (hs : s.Lists h) {a : α}
    (ha : a ∈ s) : (s.insert a).Lists (h ++ [.put a]) := by
  have hkeep : ∀ b, Attempt.put a = .put b → Present h b := by
    rintro b ⟨⟩
    exact (hs.mem_iff a).1 ha
  rw [insert_of_mem ha]
  refine ⟨s.nodup, fun b => ?_, fun b hb => ?_, ?_⟩
  · rw [hs.mem_iff, present_concat]
    constructor
    · intro hb
      exact Or.inr ⟨nofun, hb⟩
    · rintro (hb | ⟨-, hb⟩)
      · exact hkeep b hb
      · exact hb
  · obtain ⟨i, hi⟩ := hs.arrived b hb
    exact ⟨i, hi.concat (hkeep b)⟩
  · exact hs.sorted_concat (List.Sublist.refl _) fun b _ => hkeep b

/-- Whoever is put in while absent goes last, and arrives now. -/
theorem Lists.insert_absent {s : OrderedSet α} {h : List (Attempt α)} (hs : s.Lists h) {a : α}
    (ha : a ∉ s) : (s.insert a).Lists (h ++ [.put a]) := by
  have hnow : ArrivedAt (h ++ [.put a]) a h.length :=
    arrivedAt_concat_put fun hp => ha ((hs.mem_iff a).2 hp)
  have hkeep : ∀ b ∈ s.toList, Attempt.put a = .put b → Present h b := by
    rintro b hb -
    exact (hs.mem_iff b).1 hb
  have hlist : (s.insert a).toList = s.toList ++ [a] := by
    rw [toList_insert, if_neg ha]
  refine ⟨(s.insert a).nodup, fun b => ?_, ?_, ?_⟩
  · rw [mem_toList, mem_insert, present_concat, mem_def, hs.mem_iff]
    constructor
    · rintro (rfl | hb)
      · exact Or.inl rfl
      · exact Or.inr ⟨nofun, hb⟩
    · rintro (hb | ⟨-, hb⟩)
      · cases hb
        exact Or.inl rfl
      · exact Or.inr hb
  · rw [hlist]
    intro b hb
    rcases List.mem_append.1 hb with hb | hb
    · obtain ⟨i, hi⟩ := hs.arrived b hb
      exact ⟨i, hi.concat (hkeep b hb)⟩
    · obtain rfl := List.mem_singleton.1 hb
      exact ⟨_, hnow⟩
  · rw [hlist, List.pairwise_append]
    refine ⟨hs.sorted_concat (List.Sublist.refl _) hkeep, List.pairwise_singleton _ _, ?_⟩
    intro b hb c hc i j hi hj
    obtain rfl := List.mem_singleton.1 hc
    obtain ⟨i', hi'⟩ := hs.arrived b hb
    rw [hi.unique (hi'.concat (hkeep b hb)), hj.unique hnow]
    exact hi'.lt_length

/-- Whoever is taken out leaves the others in order. -/
theorem Lists.erase {s : OrderedSet α} {h : List (Attempt α)} (hs : s.Lists h) (a : α) :
    (s.erase a).Lists (h ++ [.drop a]) := by
  have hkeep : ∀ b, Attempt.drop a = .put b → Present h b := fun _ => nofun
  have hsub : (s.erase a).toList.Sublist s.toList := List.erase_sublist
  refine ⟨(s.erase a).nodup, fun b => ?_, fun b hb => ?_, ?_⟩
  · rw [mem_toList, mem_erase, present_concat, mem_def, hs.mem_iff]
    constructor
    · rintro ⟨hne, hb⟩
      refine Or.inr ⟨?_, hb⟩
      rintro ⟨⟩
      exact hne rfl
    · rintro (hb | ⟨hne, hb⟩)
      · cases hb
      · exact ⟨fun he => hne (he ▸ rfl), hb⟩
  · obtain ⟨i, hi⟩ := hs.arrived b (hsub.subset hb)
    exact ⟨i, hi.concat (hkeep b)⟩
  · exact hs.sorted_concat hsub fun b _ => hkeep b

/-- The step: a set goes on to list what is present, by arrival. -/
theorem Lists.attempt {s : OrderedSet α} {h : List (Attempt α)} (hs : s.Lists h) (e : Attempt α) :
    (s.attempt e).Lists (h ++ [e]) := by
  cases e with
  | put a =>
    by_cases ha : a ∈ s
    · exact hs.insert_present ha
    · exact hs.insert_absent ha
  | drop a => exact hs.erase a

/-- **The run**: a set that followed a history lists what is present, by the time of arrival. -/
theorem lists_replay (h : List (Attempt α)) : (replay ∅ h).Lists h := by
  induction h using List.reverseRecOn with
  | nil => exact lists_empty
  | append_singleton h e ih =>
    rw [replay_append]
    exact ih.attempt e

end OrderedSet

/-! ## Field sets -/

namespace FieldSet

open OrderedSet (Attempt)

/-- What making a set asks of it. -/
def Start.attempts : Start → List (Attempt String)
  | .empty => []
  | .all => [.put wildcard]
  | .collected fields => fields.map .put

/-- What a change asks of a set. -/
def Change.attempts : Change → List (Attempt String)
  | .insert f => [.put f]
  | .remove f => [.drop f]
  | .extend other => other.toList.map .put

theorem ofStart_eq (start : Start) : ofStart start = OrderedSet.replay ∅ start.attempts := by
  cases start with
  | empty => rfl
  | all => rfl
  | collected fields => exact (OrderedSet.replay_map_put ∅ fields).symm

theorem change_eq (fs : FieldSet) (c : Change) : (fs.change c).1 = fs.replay c.attempts := by
  cases c with
  | insert f => rfl
  | remove f => rfl
  | extend other => exact (OrderedSet.replay_map_put fs other.toList).symm

theorem changes_eq (fs : FieldSet) (cs : List Change) :
    fs.changes cs = fs.replay (cs.flatMap Change.attempts) := by
  induction cs generalizing fs with
  | nil => rfl
  | cons c cs ih =>
    rw [List.flatMap_cons, OrderedSet.replay_append, ← change_eq]
    exact ih (fs.change c).1

/-- Every question about a set is a question about its listing. -/
structure AnswersByListing (fs : FieldSet) : Prop where
  contains : ∀ f, fs.contains f = true ↔ f ∈ fs.toList
  size : fs.size = fs.toList.length
  isEmpty : fs.isEmpty = true ↔ fs.toList = []
  hasWildcard : fs.hasWildcard = true ↔ wildcard ∈ fs.toList
  permits : ∀ f, fs.permits f = true ↔ f ∈ fs.toList ∨ wildcard ∈ fs.toList
  permits_wildcard : fs.permits wildcard = true ↔ wildcard ∈ fs.toList

theorem answersByListing (fs : FieldSet) : fs.AnswersByListing where
  contains _ := OrderedSet.contains_iff
  size := rfl
  isEmpty := List.isEmpty_iff
  hasWildcard := hasWildcard_iff
  permits _ := permits_iff.trans or_comm
  permits_wildcard := permits_wildcard_iff

/-- What the changes of a set do to it, and what they answer. -/
structure ChangesAsAsked (fs : FieldSet) : Prop where
  /-- Inserting answers whether the fields of the set changed. -/
  insert : ∀ f, ∃ b, (fs.change (.insert f)).2 = some b ∧
    (b = true ↔ ¬ ∀ g, g ∈ (fs.change (.insert f)).1 ↔ g ∈ fs)
  remove : ∀ f, ∃ b, (fs.change (.remove f)).2 = some b ∧
    (b = true ↔ ¬ ∀ g, g ∈ (fs.change (.remove f)).1 ↔ g ∈ fs)
  /-- A field that is present keeps its place when it is inserted. -/
  insert_of_mem : ∀ f ∈ fs, (fs.change (.insert f)).1 = fs
  /-- A field that is removed and inserted again goes last. -/
  insert_removed : ∀ f,
    (((fs.change (.remove f)).1.change (.insert f)).1).toList = fs.toList.erase f ++ [f]
  permits_extend : ∀ (other : FieldSet) f, FieldSet.permits (fs.change (.extend other)).1 f = true ↔
    fs.permits f = true ∨ other.permits f = true

theorem changesAsAsked (fs : FieldSet) : fs.ChangesAsAsked where
  insert f := by
    refine ⟨!fs.contains f, rfl, ?_⟩
    by_cases hf : f ∈ fs
    · have hkeep : (fs.change (.insert f)).1 = fs := OrderedSet.insert_of_mem hf
      simp [hkeep, hf]
    · have hnew : ¬ ∀ g, g ∈ (fs.change (.insert f)).1 ↔ g ∈ fs :=
        fun h => hf ((h f).1 (OrderedSet.mem_insert_self fs f))
      simp [hnew, OrderedSet.contains, hf]
  remove f := by
    refine ⟨fs.contains f, rfl, ?_⟩
    have hgone : f ∉ (fs.change (.remove f)).1 := fun h => (OrderedSet.mem_erase.1 h).1 rfl
    rw [OrderedSet.contains_iff]
    constructor
    · intro hf h
      exact hgone ((h f).2 hf)
    · intro h
      by_contra hf
      refine h fun g => ?_
      show g ∈ fs.erase f ↔ g ∈ fs
      rw [OrderedSet.mem_erase]
      refine and_iff_right_of_imp fun hg => ?_
      rintro rfl
      exact hf hg
  insert_of_mem _ hf := OrderedSet.insert_of_mem hf
  insert_removed f := by
    have hgone : f ∉ fs.erase f := fun h => (OrderedSet.mem_erase.1 h).1 rfl
    show ((fs.erase f).insert f).toList = _
    rw [OrderedSet.toList_insert, if_neg hgone, OrderedSet.toList_erase]
  permits_extend other f := by
    have hother : other.permits f = true ↔ wildcard ∈ other ∨ f ∈ other := permits_iff
    rw [hother]
    exact permits_extend

/-- **How a field set lists its fields.**  However a set was made, and whatever was inserted, removed and
taken over from other sets since then: it lists every present field once, by the time of the latest
insertion that found it absent.  Every question about it is answered by that listing, and each
further change does what was asked and tells whether the fields changed. -/
theorem listing_of_changes (start : Start) (cs : List Change) :
    let fs := (ofStart start).changes cs
    fs.Lists (start.attempts ++ cs.flatMap Change.attempts) ∧
      fs.AnswersByListing ∧ fs.ChangesAsAsked := by
  intro fs
  have hfs : fs = OrderedSet.replay ∅ (start.attempts ++ cs.flatMap Change.attempts) := by
    rw [OrderedSet.replay_append, ← ofStart_eq]
    exact changes_eq _ cs
  refine ⟨?_, answersByListing fs, changesAsAsked fs⟩
  rw [hfs]
  exact OrderedSet.lists_replay _

/-- `a` keeps its place; `b` leaves, and comes back last. -/
example : (changes (ofStart (.collected ["b", "a", "b"]))
    [.insert "a", .remove "b", .extend (OrderedSet.ofList ["c", "b"])]).toList = ["a", "c", "b"] := by
  decide

end FieldSet

end FieldAccess
