/-
  A value that was parsed repeats no key.

  1. **Values** — `Json.DistinctKeys` says that no object in a value has a key twice, at any depth.

  2. **Readers** — `Reader.Gives P` says that whatever a reader gives meets `P`.  A list is met item by
     item, an object by an invariant that each of its members keeps.

  3. **Parsing** — by induction on the depth that is left: every object is put together by assignments,
     and an assignment replaces the value of a key that is there.

  Core only.
-/
import FieldAccess.Json.Parser
import FieldAccess.Proofs.Collections.Traversal

namespace FieldAccess.Json

/-! ## Values -/

/-- No object in the value has a key twice. -/
inductive DistinctKeys : Json → Prop where
  | null : DistinctKeys .null
  | bool (b : Bool) : DistinctKeys (.bool b)
  | number (n : Number) : DistinctKeys (.number n)
  | string (s : String) : DistinctKeys (.string s)
  | array {items : List Json} : (∀ v ∈ items, DistinctKeys v) → DistinctKeys (.array items)
  | object {members : List (String × Json)} : (members.map Prod.fst).Nodup →
      (∀ m ∈ members, DistinctKeys m.2) → DistinctKeys (.object members)

theorem DistinctKeys.nodup {members : List (String × Json)} (h : DistinctKeys (.object members)) :
    (members.map Prod.fst).Nodup := by
  cases h with
  | object nd _ => exact nd

theorem DistinctKeys.member {members : List (String × Json)} (h : DistinctKeys (.object members))
    {m : String × Json} (hm : m ∈ members) : DistinctKeys m.2 := by
  cases h with
  | object _ hs => exact hs m hm

/-- The value of a member may be replaced by any other without repeated keys. -/
theorem DistinctKeys.replace {k : String} {v v' : Json} {xs ys : List (String × Json)}
    (h : DistinctKeys (.object (xs ++ (k, v) :: ys))) (hv : DistinctKeys v') :
    DistinctKeys (.object (xs ++ (k, v') :: ys)) := by
  have nd := h.nodup
  have hs : ∀ m ∈ xs ++ (k, v) :: ys, DistinctKeys m.2 := fun m hm => h.member hm
  rw [List.map_append, List.map_cons] at nd
  simp only [List.forall_mem_append, List.forall_mem_cons] at hs
  refine .object (by rw [List.map_append, List.map_cons]; exact nd) ?_
  simp only [List.forall_mem_append, List.forall_mem_cons]
  exact ⟨hs.1, hv, hs.2.2⟩

/-! ## Readers -/

namespace Reader

variable {α β : Type}

/-- Whatever the reader gives meets a condition. -/
def Gives (r : Reader α) (P : α → Prop) : Prop := ∀ cs a rest, r cs = .ok (a, rest) → P a

theorem Gives.pure {a : α} {P : α → Prop} (h : P a) : Gives (pure a) P := by
  intro cs a' rest e
  cases e
  exact h

theorem Gives.fail {f : Fault} {P : α → Prop} : Gives (Reader.fail f) P := by
  intro cs a rest e
  cases e

theorem Gives.trivial (r : Reader α) : r.Gives fun _ => True := fun _ _ _ _ => True.intro

theorem Gives.bind {r : Reader α} {f : α → Reader β} {P : α → Prop} {Q : β → Prop} (hr : r.Gives P)
    (hf : ∀ a, P a → (f a).Gives Q) : (r >>= f).Gives Q := by
  intro cs b rest e
  have e : (r cs >>= fun p => f p.1 p.2) = .ok (b, rest) := e
  obtain ⟨⟨a, mid⟩, ha, hb⟩ := bind_eq_ok.1 e
  exact hf a (hr cs a mid ha) mid b rest hb

/-- What comes before a reader does not matter for what the reader gives. -/
theorem Gives.after {r : Reader α} {f : α → Reader β} {Q : β → Prop} (hf : ∀ a, (f a).Gives Q) :
    (r >>= f).Gives Q :=
  (Gives.trivial r).bind fun a _ => hf a

theorem gives_items {item : Reader α} {P : α → Prop} (h : item.Gives P) (turns : List Char)
    (first : Bool) : (items item turns first).Gives fun as => ∀ a ∈ as, P a := by
  induction turns generalizing first with
  | nil => exact Gives.fail
  | cons c turns ih =>
    unfold items
    refine Gives.after fun goesOn => ?_
    split
    · refine h.bind fun a ha => (ih false).bind fun as has => Gives.pure ?_
      exact List.forall_mem_cons.2 ⟨ha, has⟩
    · exact Gives.pure (fun a ha => by cases ha)

theorem gives_listBody {item : Reader α} {P : α → Prop} (h : item.Gives P) :
    (listBody item).Gives fun as => ∀ a ∈ as, P a := by
  unfold listBody
  exact Gives.after fun turns => (gives_items h turns true).bind fun as has =>
    Gives.after fun _ => Gives.pure has

/-- The invariant of an object's members holds of what they add up to. -/
theorem gives_members {step : β → String → Reader β} {I : β → Prop}
    (h : ∀ acc k, I acc → (step acc k).Gives I) (turns : List Char) (first : Bool) (acc : β)
    (ha : I acc) : (members step turns first acc).Gives I := by
  induction turns generalizing first acc with
  | nil => exact Gives.fail
  | cons c turns ih =>
    unfold members
    refine Gives.after fun goesOn => ?_
    split
    · exact Gives.after fun k => (h acc k ha).bind fun acc' ha' => ih false acc' ha'
    · exact Gives.pure ha

theorem gives_objectBody {step : β → String → Reader β} {I : β → Prop}
    (h : ∀ acc k, I acc → (step acc k).Gives I) {start : β} (hs : I start) :
    (objectBody step start).Gives I := by
  unfold objectBody
  exact Gives.after fun turns => (gives_members h turns true start hs).bind fun acc ha =>
    Gives.after fun _ => Gives.pure ha

/-! ## Parsing -/

/-- An assignment keeps the keys distinct. -/
theorem gives_memberWith {inner : Reader Json} (hi : inner.Gives DistinctKeys)
    {ms : List (String × Json)} (h : DistinctKeys (.object ms)) (k : String) :
    (valueWith.memberWith inner ms k).Gives fun ms => DistinctKeys (.object ms) := by
  unfold valueWith.memberWith
  refine Gives.after fun _ => hi.bind fun v hv => Gives.pure ?_
  refine .object (Entries.nodup_keys_alter h.nodup) fun m hm => ?_
  rcases Entries.mem_of_mem_put hm with e | hm
  · exact e ▸ hv
  · exact h.member hm

theorem gives_valueWith {nested : Option (Reader Json)}
    (h : ∀ inner ∈ nested, inner.Gives DistinctKeys) : (valueWith nested).Gives DistinctKeys := by
  unfold valueWith
  refine Gives.after fun next => ?_
  split
  · exact Gives.fail
  split
  · exact Gives.after fun _ => Gives.pure .null
  · exact Gives.after fun _ => Gives.pure (.bool true)
  · exact Gives.after fun _ => Gives.pure (.bool false)
  · exact Gives.after fun _ => Gives.after fun s => Gives.pure (.string s)
  · split
    · exact Gives.fail
    · exact Gives.after fun _ => (gives_listBody (h _ rfl)).bind fun items hs =>
        Gives.pure (.array hs)
  · split
    · exact Gives.fail
    · refine Gives.after fun _ => Gives.bind (gives_objectBody
        (fun ms k hms => gives_memberWith (h _ rfl) hms k) ?_) fun ms hms => Gives.pure hms
      exact .object List.nodup_nil (fun m hm => by cases hm)
  · split
    · exact Gives.after fun n => Gives.pure (.number n)
    · exact Gives.fail

theorem gives_value (depth : Nat) : (value depth).Gives DistinctKeys := by
  induction depth with
  | zero => exact gives_valueWith (fun inner hi => by cases hi)
  | succ depth ih => exact gives_valueWith (fun inner hi => by cases hi; exact ih)

end Reader

/-- A text is parsed as the value that its characters are read as. -/
theorem parse_of_value {text : String} {cs : List Char} {v : Json} (ht : text.toList = cs)
    (hv : Reader.value Reader.maxDepth cs = .ok (v, [])) : parse text = .ok v := by
  have hread : (do let v ← Reader.value Reader.maxDepth; Reader.finish; return v : Reader Json) cs =
      .ok (v, []) := bind_eq_ok.2 ⟨_, hv, rfl⟩
  unfold parse Reader.run
  rw [ht, hread]
  rfl

/-- **No key is repeated** in a value that was parsed. -/
theorem distinctKeys_of_parse {text : String} {v : Json} (h : parse text = .ok v) :
    v.DistinctKeys := by
  unfold parse Reader.run at h
  obtain ⟨⟨v', rest⟩, hv, e⟩ := bind_eq_ok.1 h
  cases e
  have hr := (Reader.gives_value Reader.maxDepth).bind fun v hv =>
    Reader.Gives.after (r := Reader.finish) fun _ => Reader.Gives.pure hv
  exact hr _ _ _ hv

end FieldAccess.Json
