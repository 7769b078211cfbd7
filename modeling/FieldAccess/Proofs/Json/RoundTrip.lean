/-
  Printing a value and parsing it again.

  1. **Steps** — a reader that succeeds on the front of a text hands the rest on; `peek` drops blanks
     first, and every reader of values starts with it, so that blanks before a value do not matter.

  2. **Strings** — each character is printed as itself or as an escape, and read back as one
     character; there are at least as many turns as characters.

  3. **Lists and objects** — item by item and member by member; members are appended, since the keys
     are distinct.

  4. **Values** — a regular value holds no numbers, repeats no key and is nested no deeper than the
     parser goes.  It is read back from its pretty text (`parse_pretty`).

  Core only.
-/
import FieldAccess.Json.Parser
import FieldAccess.Json.Printer
import FieldAccess.Proofs.Collections.Traversal

namespace FieldAccess.Json

namespace Reader

variable {α β : Type}

/-! ## Steps -/

theorem bind_of_ok {r : Reader α} {f : α → Reader β} {cs rest : List Char} {a : α}
    (h : r cs = .ok (a, rest)) : (r >>= f) cs = f a rest := by
  show (r cs >>= fun p => f p.1 p.2) = _
  rw [h]
  rfl

/-- All characters of a text are blank. -/
def Blank (bs : List Char) : Prop := ∀ b ∈ bs, isBlank b = true

theorem blank_nil : Blank [] := fun b hb => by cases hb

theorem blank_newline (level : Nat) : Blank (newline level) := by
  intro b hb
  rcases List.mem_cons.1 hb with rfl | hb
  · rfl
  · rw [List.eq_of_mem_replicate hb]
    rfl

theorem dropWhile_blank {bs : List Char} (hb : Blank bs) (cs : List Char) :
    (bs ++ cs).dropWhile isBlank = cs.dropWhile isBlank := by
  induction bs with
  | nil => rfl
  | cons b bs ih =>
    have h := List.forall_mem_cons.1 hb
    rw [List.cons_append, List.dropWhile_cons_of_pos h.1, ih h.2]

/-- Behind blanks, `peek` shows the next character and leaves it. -/
theorem peek_blank {bs : List Char} (hb : Blank bs) {c : Char} (hc : isBlank c = false)
    (cs : List Char) : peek (bs ++ c :: cs) = .ok (some c, c :: cs) := by
  unfold peek
  rw [dropWhile_blank hb, List.dropWhile_cons_of_neg (by rw [hc]; exact Bool.false_ne_true)]
  rfl

/-- Behind blanks alone, a text is at its end. -/
theorem finish_blank {bs : List Char} (hb : Blank bs) : finish bs = .ok ((), []) := by
  have hpeek : peek bs = .ok (none, []) := by
    have hnone := dropWhile_blank hb []
    rw [List.append_nil] at hnone
    unfold peek
    rw [hnone]
    rfl
  unfold finish
  rw [bind_of_ok hpeek]
  rfl

theorem peek_cons {c : Char} (hc : isBlank c = false) (cs : List Char) :
    peek (c :: cs) = .ok (some c, c :: cs) := peek_blank blank_nil hc cs

theorem advance_cons (c : Char) (cs : List Char) : advance (c :: cs) = .ok ((), cs) := rfl

theorem get_eq (cs : List Char) : (get : Reader (List Char)) cs = .ok (cs, cs) := rfl

/-- The reader reads a text as a value, whatever blanks stand before it and whatever follows it. -/
def Reads (r : Reader α) (cs : List Char) (a : α) : Prop :=
  ∀ bs rest, Blank bs → r (bs ++ (cs ++ rest)) = .ok (a, rest)

theorem Reads.plain {r : Reader α} {cs : List Char} {a : α} (h : r.Reads cs a)
    (rest : List Char) : r (cs ++ rest) = .ok (a, rest) := h [] rest blank_nil

/-! ## Strings -/

theorem hexDigit?_digitChar : ∀ d, d < 16 → hexDigit? (Nat.digitChar d) = some d := by decide

theorem fourHex_of_hexValue? {a b c d : Char} {n : Nat} (h : hexValue? a b c d = some n)
    (rest : List Char) : fourHex (a :: b :: c :: d :: rest) = .ok (n, rest) := by
  simp only [fourHex, h]

/-- The escape of a control character is read back as that character. -/
theorem escape_control {c : Char} (hc : c.toNat < 0x20) (rest : List Char) :
    stringChar unitChar (controlEscape c ++ rest) = .ok (some c, rest) := by
  have hhigh := hexDigit?_digitChar (c.toNat / 16) (by omega)
  have hlow := hexDigit?_digitChar (c.toNat % 16) (by omega)
  have hvalue : hexValue? '0' '0' (Nat.digitChar (c.toNat / 16)) (Nat.digitChar (c.toNat % 16)) =
      some c.toNat := by
    have hzero : hexDigit? '0' = some 0 := rfl
    unfold hexValue?
    rw [hzero, hhigh, hlow]
    show some (((0 * 16 + 0) * 16 + c.toNat / 16) * 16 + c.toNat % 16) = some c.toNat
    congr 1
    omega
  have hfour : fourHex ('0' :: '0' :: Nat.digitChar (c.toNat / 16) ::
      Nat.digitChar (c.toNat % 16) :: rest) = .ok (c.toNat, rest) := fourHex_of_hexValue? hvalue rest
  -- a control character is no surrogate, so that one unit stands for it
  have hunit : unitChar c.toNat rest = .ok (c, rest) := by
    have ht : isTrailing c.toNat = false := by
      unfold isTrailing
      rw [Bool.and_eq_false_iff]
      exact Or.inl (decide_eq_false (by omega))
    have hl : isLeading c.toNat = false := by
      unfold isLeading
      rw [Bool.and_eq_false_iff]
      exact Or.inl (decide_eq_false (by omega))
    unfold unitChar
    rw [if_neg (by rw [ht]; exact Bool.false_ne_true), if_neg (by rw [hl]; exact Bool.false_ne_true),
      Char.ofNat_toNat]
    rfl
  show (some <$> (fourHex >>= unitChar) : Reader (Option Char)) _ = _
  show ((fourHex >>= unitChar) ('0' :: '0' :: Nat.digitChar (c.toNat / 16) ::
    Nat.digitChar (c.toNat % 16) :: rest) >>= fun p => pure (some p.1, p.2)) = _
  rw [bind_of_ok hfour, hunit]
  rfl

/-- A character is read back from how a string shows it. -/
theorem stringChar_shown (c : Char) (rest : List Char) :
    stringChar unitChar (Json.stringChar c ++ rest) = .ok (some c, rest) := by
  unfold Json.stringChar
  split
  · next h => subst h; rfl
  split
  · next h => subst h; rfl
  split
  · next h => subst h; rfl
  split
  · next h => subst h; rfl
  split
  · next h => subst h; rfl
  split
  · next h => subst h; rfl
  split
  · next h => subst h; rfl
  split
  · next h => exact escape_control h rest
  · next hquote hslash _ _ _ _ _ hcontrol =>
    show (if c = '"' then _ else if c = '\\' then _ else if c.toNat < 0x20 then _ else _) = _
    rw [if_neg hquote, if_neg hslash, if_neg hcontrol]
    rfl

theorem stringChars_shown (s rest turns : List Char) (h : s.length < turns.length) :
    stringChars unitChar turns (s.flatMap Json.stringChar ++ '"' :: rest) = .ok (s, rest) := by
  -- a turn for each character, and one more for the closing quote
  induction s generalizing turns with
  | nil =>
    cases turns with
    | nil => cases h
    | cons t turns => rfl
  | cons c s ih =>
    cases turns with
    | nil => cases h
    | cons t turns =>
      have hs := ih turns (Nat.lt_of_succ_lt_succ h)
      unfold stringChars
      rw [List.flatMap_cons, List.append_assoc, bind_of_ok (stringChar_shown c _)]
      show (stringChars unitChar turns >>= fun cs => pure (c :: cs)) _ = _
      rw [bind_of_ok hs]
      rfl

theorem length_le_flatMap (s : List Char) : s.length ≤ (s.flatMap Json.stringChar).length := by
  induction s with
  | nil => exact Nat.le_refl _
  | cons c s ih =>
    have hpos : 0 < (Json.stringChar c).length := by
      unfold Json.stringChar controlEscape
      repeat' split
      all_goals exact Nat.zero_lt_succ _
    rw [List.flatMap_cons, List.length_append, List.length_cons]
    omega

/-- A string is read back, after its opening quote. -/
theorem stringBody_shown (s : String) (rest : List Char) :
    stringBody (s.toList.flatMap Json.stringChar ++ '"' :: rest) = .ok (s, rest) := by
  have hlen : s.toList.length < (s.toList.flatMap Json.stringChar ++ '"' :: rest).length := by
    have h := length_le_flatMap s.toList
    rw [List.length_append, List.length_cons]
    omega
  unfold stringBody
  show (stringChars unitChar (s.toList.flatMap Json.stringChar ++ '"' :: rest) >>= fun cs =>
    pure (String.ofList cs)) _ = _
  rw [bind_of_ok (stringChars_shown s.toList rest _ hlen), String.ofList_toList]
  rfl

/-! ## Lists -/

/-- A text starts like a printed value: neither with a blank nor with a closing bracket. -/
def Starts (cs : List Char) : Prop :=
  ∃ c rest, cs = c :: rest ∧ isBlank c = false ∧ c ≠ ']'

theorem Starts.peek_eq {cs : List Char} (hs : Starts cs) {bs : List Char} (hb : Blank bs)
    (rest : List Char) :
    ∃ c, c ≠ ']' ∧ peek (bs ++ (cs ++ rest)) = .ok (some c, cs ++ rest) := by
  obtain ⟨c, tail, rfl, hc, hne⟩ := hs
  exact ⟨c, hne, peek_blank hb hc (tail ++ rest)⟩

theorem listGoesOn_first {bs cs : List Char} (hb : Blank bs) (hs : Starts cs) (rest : List Char) :
    listGoesOn true (bs ++ (cs ++ rest)) = .ok (true, cs ++ rest) := by
  obtain ⟨c, hne, hp⟩ := hs.peek_eq hb rest
  unfold listGoesOn
  rw [bind_of_ok hp]
  refine congrFun (g := (pure true : Reader Bool)) ?_ (cs ++ rest)
  split
  · next h => cases h
  · next h => cases h; exact absurd rfl hne
  · rfl
  · rfl

theorem listGoesOn_comma {bs cs : List Char} (hb : Blank bs) (hs : Starts cs) (rest : List Char) :
    listGoesOn false (',' :: (bs ++ (cs ++ rest))) = .ok (true, cs ++ rest) := by
  obtain ⟨c, hne, hp⟩ := hs.peek_eq hb rest
  unfold listGoesOn
  rw [bind_of_ok (peek_cons (c := ',') rfl _)]
  show (advance >>= fun _ => peek >>= _) _ = _
  rw [bind_of_ok (advance_cons ',' _), bind_of_ok hp]
  refine congrFun (g := (pure true : Reader Bool)) ?_ (cs ++ rest)
  split
  · next h => cases h
  · next h => cases h; exact absurd rfl hne
  · rfl

theorem listGoesOn_close {bs : List Char} (hb : Blank bs) (first : Bool) (rest : List Char) :
    listGoesOn first (bs ++ ']' :: rest) = .ok (false, ']' :: rest) := by
  unfold listGoesOn
  rw [bind_of_ok (peek_blank (c := ']') hb rfl rest)]
  rfl

/-- The items after the first are read back. -/
theorem items_pretty {item : Reader Json} {level : Nat} {vs : List Json}
    (hr : ∀ v ∈ vs, item.Reads (prettyChars level v) v)
    (hs : ∀ v ∈ vs, Starts (prettyChars level v)) {bs : List Char} (hb : Blank bs)
    (rest turns : List Char) (ht : vs.length < turns.length) :
    items item turns false (prettyItems level vs ++ (bs ++ ']' :: rest)) =
      .ok (vs, ']' :: rest) := by
  induction vs generalizing turns with
  | nil =>
    cases turns with
    | nil => cases ht
    | cons t turns =>
      unfold items
      show (listGoesOn false >>= _) (bs ++ ']' :: rest) = _
      rw [bind_of_ok (listGoesOn_close hb false rest)]
      rfl
  | cons v vs ih =>
    cases turns with
    | nil => cases ht
    | cons t turns =>
      obtain ⟨hv, hvs⟩ := List.forall_mem_cons.1 hr
      obtain ⟨hsv, hsvs⟩ := List.forall_mem_cons.1 hs
      have hrest := ih hvs hsvs turns (Nat.lt_of_succ_lt_succ ht)
      have htext : prettyItems level (v :: vs) ++ (bs ++ ']' :: rest) =
          ',' :: (newline level ++ (prettyChars level v ++
            (prettyItems level vs ++ (bs ++ ']' :: rest)))) := by
        simp [prettyItems]
      unfold items
      rw [htext, bind_of_ok (listGoesOn_comma (blank_newline level) hsv _)]
      show (item >>= fun a => items item turns false >>= fun as => pure (a :: as)) _ = _
      rw [bind_of_ok (hv.plain _), bind_of_ok hrest]
      rfl

/-- A list that is not empty is read back. -/
theorem items_first {item : Reader Json} {level : Nat} {v : Json} {vs : List Json}
    (hr : ∀ w ∈ v :: vs, item.Reads (prettyChars level w) w)
    (hs : ∀ w ∈ v :: vs, Starts (prettyChars level w)) {bs : List Char} (hb : Blank bs)
    (rest turns : List Char) (ht : vs.length + 1 < turns.length) :
    items item turns true (newline level ++ (prettyChars level v ++
      (prettyItems level vs ++ (bs ++ ']' :: rest)))) = .ok (v :: vs, ']' :: rest) := by
  obtain ⟨hv, hvs⟩ := List.forall_mem_cons.1 hr
  obtain ⟨hsv, hsvs⟩ := List.forall_mem_cons.1 hs
  cases turns with
  | nil => cases ht
  | cons t turns =>
    have hrest := items_pretty hvs hsvs hb rest turns (Nat.lt_of_succ_lt_succ ht)
    unfold items
    rw [bind_of_ok (listGoesOn_first (blank_newline level) hsv _)]
    show (item >>= fun a => items item turns false >>= fun as => pure (a :: as)) _ = _
    rw [bind_of_ok (hv.plain _), bind_of_ok hrest]
    rfl

theorem length_le_prettyItems (level : Nat) (vs : List Json) :
    vs.length ≤ (prettyItems level vs).length := by
  induction vs with
  | nil => exact Nat.le_refl _
  | cons v vs ih =>
    simp only [prettyItems, List.length_append, List.length_cons]
    omega

/-- A list is read back, after its opening bracket. -/
theorem listBody_pretty {item : Reader Json} {level : Nat} {v : Json} {vs : List Json}
    (hr : ∀ w ∈ v :: vs, item.Reads (prettyChars level w) w)
    (hs : ∀ w ∈ v :: vs, Starts (prettyChars level w)) {bs : List Char} (hb : Blank bs)
    (rest : List Char) :
    listBody item (newline level ++ (prettyChars level v ++
      (prettyItems level vs ++ (bs ++ ']' :: rest)))) = .ok (v :: vs, rest) := by
  have hlen : vs.length + 1 < (newline level ++ (prettyChars level v ++
      (prettyItems level vs ++ (bs ++ ']' :: rest)))).length := by
    have h := length_le_prettyItems level vs
    simp only [newline, List.length_append, List.length_cons]
    omega
  unfold listBody
  rw [bind_of_ok (get_eq _), bind_of_ok (items_first hr hs hb rest _ hlen)]
  rfl

/-! ## Objects -/

theorem stringChars_append (k : String) (rest : List Char) :
    Json.stringChars k ++ rest = '"' :: (k.toList.flatMap Json.stringChar ++ '"' :: rest) := by
  simp [Json.stringChars]

theorem objectGoesOn_first {bs : List Char} (hb : Blank bs) (k : String) (rest : List Char) :
    objectGoesOn true (bs ++ (Json.stringChars k ++ rest)) =
      .ok (true, Json.stringChars k ++ rest) := by
  unfold objectGoesOn
  rw [stringChars_append, bind_of_ok (peek_blank (c := '"') hb rfl _)]
  rfl

theorem objectGoesOn_comma {bs : List Char} (hb : Blank bs) (k : String) (rest : List Char) :
    objectGoesOn false (',' :: (bs ++ (Json.stringChars k ++ rest))) =
      .ok (true, Json.stringChars k ++ rest) := by
  unfold objectGoesOn
  rw [stringChars_append, bind_of_ok (peek_cons (c := ',') rfl _)]
  show (advance >>= fun _ => peek >>= _) _ = _
  rw [bind_of_ok (advance_cons ',' _), bind_of_ok (peek_blank (c := '"') hb rfl _)]
  rfl

theorem objectGoesOn_close {bs : List Char} (hb : Blank bs) (first : Bool) (rest : List Char) :
    objectGoesOn first (bs ++ '\x7d' :: rest) = .ok (false, '\x7d' :: rest) := by
  unfold objectGoesOn
  rw [bind_of_ok (peek_blank (c := '\x7d') hb rfl rest)]
  rfl

theorem key_shown (k : String) (rest : List Char) :
    key (Json.stringChars k ++ rest) = .ok (k, rest) := by
  unfold key
  rw [stringChars_append, bind_of_ok (advance_cons '"' _)]
  exact stringBody_shown k rest

/-- A member is read back and, under a new key, appended. -/
theorem memberWith_pretty {inner : Reader Json} {cs : List Char} {v : Json}
    (hr : inner.Reads cs v) {ms : List (String × Json)} {k : String} (hk : k ∉ ms.map Prod.fst)
    (rest : List Char) :
    valueWith.memberWith inner ms k (':' :: ' ' :: (cs ++ rest)) = .ok (ms ++ [(k, v)], rest) := by
  have hcolon : colon (':' :: ' ' :: (cs ++ rest)) = .ok ((), ' ' :: (cs ++ rest)) := rfl
  have hv : inner (' ' :: (cs ++ rest)) = .ok (v, rest) :=
    hr [' '] rest (fun b hb => by rw [List.mem_singleton.1 hb]; rfl)
  unfold valueWith.memberWith
  rw [bind_of_ok hcolon, bind_of_ok hv]
  show Except.ok (Entries.put k v ms, rest) = _
  unfold Entries.put
  rw [Entries.alter_of_not_mem hk]

/-- The members that are left are read back and appended. -/
theorem members_pretty {inner : Reader Json} {level : Nat} {ms : List (String × Json)}
    (acc : List (String × Json)) (hr : ∀ m ∈ ms, inner.Reads (prettyChars level m.2) m.2)
    (nd : (acc.map Prod.fst ++ ms.map Prod.fst).Nodup) {bs : List Char} (hb : Blank bs)
    (rest turns : List Char) (ht : ms.length < turns.length) :
    members (valueWith.memberWith inner) turns false acc
      (prettyMembers level ms ++ (bs ++ '\x7d' :: rest)) = .ok (acc ++ ms, '\x7d' :: rest) := by
  induction ms generalizing turns acc with
  | nil =>
    cases turns with
    | nil => cases ht
    | cons t turns =>
      unfold members
      show (objectGoesOn false >>= _) (bs ++ '\x7d' :: rest) = _
      rw [bind_of_ok (objectGoesOn_close hb false rest), List.append_nil]
      rfl
  | cons m ms ih =>
    obtain ⟨k, v⟩ := m
    cases turns with
    | nil => cases ht
    | cons t turns =>
      obtain ⟨hv, hms⟩ := List.forall_mem_cons.1 hr
      have hk : k ∉ acc.map Prod.fst := by
        intro hm
        exact (List.nodup_append.1 nd).2.2 k hm k List.mem_cons_self rfl
      -- the member joins those that were read, so that the keys are distinct as before
      have nd' : ((acc ++ [(k, v)]).map Prod.fst ++ ms.map Prod.fst).Nodup := by simpa using nd
      have hrest := ih (acc ++ [(k, v)]) hms nd' turns (Nat.lt_of_succ_lt_succ ht)
      have htext : prettyMembers level ((k, v) :: ms) ++ (bs ++ '\x7d' :: rest) =
          ',' :: (newline level ++ (Json.stringChars k ++ (':' :: ' ' :: (prettyChars level v ++
            (prettyMembers level ms ++ (bs ++ '\x7d' :: rest)))))) := by
        simp [prettyMembers]
      unfold members
      rw [htext, bind_of_ok (objectGoesOn_comma (blank_newline level) k _)]
      show (key >>= fun k => valueWith.memberWith inner acc k >>= _) _ = _
      rw [bind_of_ok (key_shown k _), bind_of_ok (memberWith_pretty hv hk _), hrest]
      simp

theorem length_le_prettyMembers (level : Nat) (ms : List (String × Json)) :
    ms.length ≤ (prettyMembers level ms).length := by
  induction ms with
  | nil => exact Nat.le_refl _
  | cons m ms ih =>
    simp only [prettyMembers, List.length_append, List.length_cons]
    omega

/-- An object that is not empty is read back, after its opening brace. -/
theorem objectBody_pretty {inner : Reader Json} {level : Nat} {k : String} {v : Json}
    {ms : List (String × Json)} (hr : ∀ m ∈ (k, v) :: ms, inner.Reads (prettyChars level m.2) m.2)
    (nd : (((k, v) :: ms).map Prod.fst).Nodup) {bs : List Char} (hb : Blank bs)
    (rest : List Char) :
    objectBody (valueWith.memberWith inner) [] (newline level ++ (Json.stringChars k ++
      (':' :: ' ' :: (prettyChars level v ++ (prettyMembers level ms ++ (bs ++ '\x7d' :: rest)))))) =
      .ok ((k, v) :: ms, rest) := by
  obtain ⟨hv, hms⟩ := List.forall_mem_cons.1 hr
  have hmembers : ∀ turns : List Char, ms.length + 1 < turns.length →
      members (valueWith.memberWith inner) turns true [] (newline level ++ (Json.stringChars k ++
        (':' :: ' ' :: (prettyChars level v ++
          (prettyMembers level ms ++ (bs ++ '\x7d' :: rest)))))) =
        .ok ((k, v) :: ms, '\x7d' :: rest) := by
    intro turns ht
    cases turns with
    | nil => cases ht
    | cons t turns =>
      have hrest := members_pretty [(k, v)] hms nd hb rest turns
        (Nat.lt_of_succ_lt_succ ht)
      unfold members
      rw [bind_of_ok (objectGoesOn_first (blank_newline level) k _)]
      show (key >>= fun k => valueWith.memberWith inner [] k >>= _) _ = _
      rw [bind_of_ok (key_shown k _), bind_of_ok (memberWith_pretty hv (List.not_mem_nil) _)]
      exact hrest
  have hlen : ms.length + 1 < (newline level ++ (Json.stringChars k ++ (':' :: ' ' ::
      (prettyChars level v ++ (prettyMembers level ms ++ (bs ++ '\x7d' :: rest)))))).length := by
    have h := length_le_prettyMembers level ms
    simp only [newline, List.length_append, List.length_cons]
    omega
  unfold objectBody
  rw [bind_of_ok (get_eq _), bind_of_ok (hmembers _ hlen)]
  rfl

end Reader

/-! ## Values -/

/-- A value that holds no numbers, repeats no key, and nests at most so many lists and objects. -/
inductive Regular : Nat → Json → Prop where
  | null (n : Nat) : Regular n .null
  | bool (n : Nat) (b : Bool) : Regular n (.bool b)
  | string (n : Nat) (s : String) : Regular n (.string s)
  | array {n : Nat} {items : List Json} : (∀ v ∈ items, Regular n v) →
      Regular (n + 1) (.array items)
  | object {n : Nat} {members : List (String × Json)} : (members.map Prod.fst).Nodup →
      (∀ m ∈ members, Regular n m.2) → Regular (n + 1) (.object members)

open Reader

/-- No regular value is printed with a blank or a closing bracket in front. -/
theorem Regular.starts {n : Nat} {v : Json} (h : v.Regular n) (level : Nat) :
    Starts (prettyChars level v) := by
  have hstarts : ∀ c rest, isBlank c = false → c ≠ ']' → Starts (c :: rest) :=
    fun c rest hc hne => ⟨c, rest, rfl, hc, hne⟩
  cases h with
  | null => exact hstarts _ _ rfl (by decide)
  | bool n b => cases b <;> exact hstarts _ _ rfl (by decide)
  | string n s => exact hstarts _ _ rfl (by decide)
  | @array n items _ => cases items <;> exact hstarts _ _ rfl (by decide)
  | @object n members _ _ =>
    rcases members with _ | ⟨⟨k, v⟩, ms⟩ <;> exact hstarts _ _ rfl (by decide)

section Values

variable {bs : List Char} (hb : Blank bs) (cs : List Char)

include hb

theorem valueWith_string (nested : Option (Reader Json)) :
    valueWith nested (bs ++ '"' :: cs) = (stringBody >>= fun s => pure (.string s)) cs := by
  unfold valueWith
  rw [bind_of_ok (peek_blank (c := '"') hb rfl cs)]
  rfl

theorem valueWith_list (inner : Reader Json) :
    valueWith (some inner) (bs ++ '[' :: cs) =
      (listBody inner >>= fun vs => pure (.array vs)) cs := by
  unfold valueWith
  rw [bind_of_ok (peek_blank (c := '[') hb rfl cs)]
  rfl

theorem valueWith_object (inner : Reader Json) :
    valueWith (some inner) (bs ++ '\x7b' :: cs) =
      (objectBody (valueWith.memberWith inner) [] >>= fun ms => pure (.object ms)) cs := by
  unfold valueWith
  rw [bind_of_ok (peek_blank (c := '\x7b') hb rfl cs)]
  rfl

theorem valueWith_null (nested : Option (Reader Json)) :
    valueWith nested (bs ++ ('n' :: 'u' :: 'l' :: 'l' :: cs)) = .ok (.null, cs) := by
  unfold valueWith
  rw [bind_of_ok (peek_blank (c := 'n') hb rfl _)]
  rfl

theorem valueWith_bool (nested : Option (Reader Json)) (b : Bool) :
    valueWith nested (bs ++ (boolChars b ++ cs)) = .ok (.bool b, cs) := by
  unfold valueWith
  cases b with
  | false =>
    show (peek >>= _) (bs ++ 'f' :: 'a' :: 'l' :: 's' :: 'e' :: cs) = _
    rw [bind_of_ok (peek_blank (c := 'f') hb rfl _)]
    rfl
  | true =>
    show (peek >>= _) (bs ++ 't' :: 'r' :: 'u' :: 'e' :: cs) = _
    rw [bind_of_ok (peek_blank (c := 't') hb rfl _)]
    rfl

end Values

/-- A regular value is read back from its pretty text, at any level of indentation. -/
theorem Regular.reads {n : Nat} {v : Json} (h : v.Regular n) :
    ∀ level, (value n).Reads (prettyChars level v) v := by
  -- how deep the reader may still go matters to lists and objects only
  have hvalue : ∀ n, ∃ nested, value n = valueWith nested := by
    rintro (_ | n)
    · exact ⟨none, rfl⟩
    · exact ⟨some (value n), rfl⟩
  induction h with
  | null n =>
    intro level bs rest hb
    obtain ⟨nested, hn⟩ := hvalue n
    rw [hn]
    exact valueWith_null hb rest nested
  | bool n b =>
    intro level bs rest hb
    obtain ⟨nested, hn⟩ := hvalue n
    rw [hn]
    exact valueWith_bool hb rest nested b
  | string n s =>
    intro level bs rest hb
    obtain ⟨nested, hn⟩ := hvalue n
    show value n (bs ++ (Json.stringChars s ++ rest)) = _
    rw [hn, stringChars_append, valueWith_string hb, bind_of_ok (stringBody_shown s rest)]
    rfl
  | @array n items hs ih =>
    intro level bs rest hb
    show valueWith (some (value n)) _ = _
    cases items with
    | nil => exact valueWith_list hb (']' :: rest) (value n)
    | cons v vs =>
      have htext : prettyChars level (.array (v :: vs)) ++ rest =
          '[' :: (newline (level + 1) ++ (prettyChars (level + 1) v ++
            (prettyItems (level + 1) vs ++ (newline level ++ ']' :: rest)))) := by
        simp [prettyChars]
      have hbody := listBody_pretty (fun w hw => ih w hw (level + 1))
        (fun w hw => (hs w hw).starts (level + 1)) (blank_newline level) rest
      rw [htext, valueWith_list hb, bind_of_ok hbody]
      rfl
  | @object n members nd hs ih =>
    intro level bs rest hb
    show valueWith (some (value n)) _ = _
    rcases members with _ | ⟨⟨k, v⟩, ms⟩
    · exact valueWith_object hb ('\x7d' :: rest) (value n)
    · have htext : prettyChars level (.object ((k, v) :: ms)) ++ rest =
          '\x7b' :: (newline (level + 1) ++ (Json.stringChars k ++ (':' :: ' ' ::
            (prettyChars (level + 1) v ++
              (prettyMembers (level + 1) ms ++ (newline level ++ '\x7d' :: rest)))))) := by
        simp [prettyChars]
      have hbody := objectBody_pretty (fun m hm => ih m hm (level + 1)) nd (blank_newline level) rest
      rw [htext, valueWith_object hb, bind_of_ok hbody]
      rfl

/-- **Printing and parsing**: a regular value is parsed from its pretty text, whatever blanks follow. -/
theorem parse_pretty {v : Json} (h : v.Regular maxDepth) {blanks : String} (hb : Blank blanks.toList) :
    parse (v.pretty ++ blanks) = .ok v := by
  have hv : value maxDepth (v.prettyChars 0 ++ blanks.toList) = .ok (v, blanks.toList) :=
    (h.reads 0).plain blanks.toList
  unfold parse Reader.run pretty
  rw [String.toList_append, String.toList_ofList, bind_of_ok hv, bind_of_ok (finish_blank hb)]
  rfl

end FieldAccess.Json
