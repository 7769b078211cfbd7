/-
  What the commands decide and print.

  1. **Loading** — a file is loaded iff its text states a declaration; no declaration that can be read
     is refused afterwards.

  2. **Deciding** — `check` allows an access iff the document, read by itself, permits it to one of the
     given roles, and credits the first such role.

  3. **Normalizing** — what `normalize` prints is loaded as the table that it was printed from, with the
     line break that follows it and without.
-/
import FieldAccess.Proofs.Oracle.ByRole
import FieldAccess.Proofs.Policy.Agreement
import FieldAccess.Proofs.Policy.NormalForm
import FieldAccess.Tool.Run

namespace FieldAccess.Tool

/-! ## Loading -/

theorem load_eq_ok_iff {f : File} {m : Model} :
    load f = .ok m ↔
      ∃ text t, f.text = some text ∧ AccessTable.parse text = .ok t ∧
        m = ⟨modelName f.name, t⟩ := by
  obtain ⟨name, text⟩ := f
  cases text with
  | none =>
    constructor
    · intro h
      cases h
    · rintro ⟨_, _, e, _⟩
      cases e
  | some text =>
    show ((AccessTable.parse text).mapError _ >>= fun t => pure (Model.mk _ t)) = .ok m ↔ _
    simp only [bind_eq_ok, mapError_eq_ok]
    constructor
    · rintro ⟨t, ht, h⟩
      cases h
      exact ⟨text, t, rfl, ht, rfl⟩
    · rintro ⟨_, t, e, ht, rfl⟩
      cases e
      exact ⟨t, ht, rfl⟩

/-- A text that states a declaration is loaded as its table. -/
theorem load_of_document {text : String} {v : Json} {d : Declaration} (hp : Json.parse text = .ok v)
    (hd : Declaration.ofJson v = .ok d) (name : String) :
    load ⟨name, some text⟩ = .ok ⟨modelName name, d.compile⟩ := by
  have ht := AccessTable.parse_eq_ok_iff.2 ⟨v, hp, AccessTable.ofDocument_eq hd⟩
  exact load_eq_ok_iff.2 ⟨text, _, rfl, ht, rfl⟩

/-! ## Deciding -/

/-- **What `check` decides**, for a document that is accepted and an action that is not empty: the
access is allowed iff the document permits it to one of the given roles, and the first such role is
credited. -/
theorem check_of_document {text : String} {doc : List (String × Json)} {d : Declaration}
    (hp : Json.parse text = .ok (.object doc))
    (hd : Declaration.ofJson (.object doc) = .ok d) {action : String} (ha : action ≠ "")
    (name : String) (roles : List Role) (f : String) :
    ∃ verdict, check ⟨name, some text⟩ roles action f = .ok verdict ∧
      (verdict.allowed = true ↔ ∃ r ∈ roles, Document.Permits doc r action f) ∧
      ∀ r, verdict.role = some r ↔ r ∈ roles ∧ Document.Permits doc r action f ∧
        ∀ r' ∈ roles, Document.Permits doc r' action f → compare r' r ≠ .lt := by
  let m : Model := ⟨modelName name, d.compile⟩
  have hgrants : ∀ r, Modelled.grants m (Action.ofName action) f r = true ↔
      Document.Permits doc r action f := fun r =>
    Declaration.permits_compile_iff (Json.distinctKeys_of_parse hp) hd
  refine ⟨.forRoles (SortedSet.ofList roles) m (Action.ofName action) f, ?_, ?_, fun r => ?_⟩
  · unfold check
    rw [load_of_document hp hd name, Action.read?_eq_ok_iff.2 ⟨ha, rfl⟩]
    rfl
  · rw [Verdict.allowed_forRoles]
    simp only [SortedSet.mem_ofList, hgrants]
  · rw [Verdict.role_forRoles]
    simp only [SortedSet.mem_ofList, hgrants]

/-- Someone who holds two roles that both may update the name is let in as the first of them by name. -/
theorem check_of_document_pair :
    let text := "\x7b\"self\": [[\"update\", [\"name\"]]], \"admin\": \"*\"\x7d"
    ∃ verdict, check ⟨"user.json", some text⟩ ["admin", "self"] "update" "name" = .ok verdict ∧
      verdict.allowed = true ∧ verdict.role = some "admin" := by
  intro text
  let doc : List (String × Json) := [
    ("self", .array [.array [.string "update", .array [.string "name"]]]),
    ("admin", .string "*")]
  have hp : Json.parse text = .ok (.object doc) := by
    unfold Json.parse Json.Reader.run
    have hl : text.toList = _ := String.toList_ofList ..
    rw [hl]
    rfl
  have hd : Declaration.ofJson (.object doc) = .ok
      ⟨none, ∅, .ofList [("self", .rules [.single .update ["name"]]), ("admin", .everything)]⟩ := rfl
  have hne : "update" ≠ "" := by decide
  obtain ⟨verdict, hc, hallowed, hrole⟩ :=
    check_of_document hp hd hne "user.json" ["admin", "self"] "name"
  have hadmin : Document.Permits doc "admin" "update" "name" := by
    refine Or.inr (.everything (by decide) (by simp [doc, wildcard]) (Or.inr ⟨?_, Or.inl rfl⟩))
    decide
  have hleast : ∀ r ∈ ["admin", "self"], compare r "admin" ≠ .lt := by decide
  exact ⟨verdict, hc, hallowed.2 ⟨"admin", by simp, hadmin⟩,
    (hrole "admin").2 ⟨by simp, hadmin, fun r hr _ => hleast r hr⟩⟩

/-! ## Normalizing -/

theorem normalize_eq_ok_iff {f : File} {out : String} :
    normalize f = .ok out ↔
      ∃ text t, f.text = some text ∧ AccessTable.parse text = .ok t ∧ out = t.pretty := by
  show (load f >>= fun m => pure m.table.pretty) = .ok out ↔ _
  simp only [bind_eq_ok, load_eq_ok_iff]
  constructor
  · rintro ⟨_, ⟨text, t, hf, ht, rfl⟩, h⟩
    cases h
    exact ⟨text, t, hf, ht, rfl⟩
  · rintro ⟨text, t, hf, ht, rfl⟩
    exact ⟨_, ⟨text, t, hf, ht, rfl⟩, rfl⟩

theorem carryOut_normalize_eq_ok_iff {texts : String → Option String} {file : String} {e : Ending} :
    (Command.normalize file).carryOut texts = .ok e ↔
      ∃ text t, texts file = some text ∧ AccessTable.parse text = .ok t ∧
        e = ⟨0, t.pretty ++ "\n"⟩ := by
  show (normalize ⟨file, texts file⟩ >>= fun out => pure (Ending.mk 0 (out ++ "\n"))) = .ok e ↔ _
  simp only [bind_eq_ok, normalize_eq_ok_iff]
  constructor
  · rintro ⟨_, ⟨text, t, hf, ht, rfl⟩, h⟩
    cases h
    exact ⟨text, t, hf, ht, rfl⟩
  · rintro ⟨text, t, hf, ht, rfl⟩
    exact ⟨_, ⟨text, t, hf, ht, rfl⟩, rfl⟩

section Again

open Json.Reader (Blank)

theorem parse_pretty_of_build {d : Declaration} {t : AccessTable} (hb : AccessTable.build d = .ok t)
    (hc : t.Canonical) (blanks : String) (hblank : Blank blanks.toList) :
    AccessTable.parse (t.pretty ++ blanks) = .ok t := by
  obtain ⟨hn, rfl⟩ := AccessTable.build_eq_ok_iff.1 hb
  exact AccessTable.parse_pretty_of_canonical hc hn.filled hblank

/-- A table that was read from a text needs no condition: it is canonical. -/
theorem parse_pretty_of_parse {text : String} {t : AccessTable}
    (ht : AccessTable.parse text = .ok t) (blanks : String) (hblank : Blank blanks.toList) :
    AccessTable.parse (t.pretty ++ blanks) = .ok t := by
  obtain ⟨v, _, hv⟩ := AccessTable.parse_eq_ok_iff.1 ht
  obtain ⟨d, _, hb⟩ := bind_eq_ok.1 hv
  exact parse_pretty_of_build hb (AccessTable.canonical_of_parse ht) blanks hblank

end Again

/-- **The round trip of the normal form.**  The table of a declaration is loaded again from its normal
form, as it is, iff it is canonical: a role with a reserved name is read as something else, and an
action that is not the reading of its name as another one.  Tables of documents and texts are
canonical.  What normalizing gives is the normal form of the table that it read, and so normalizing what
was normalized gives the same text again, and so does the command with what it printed, where a line
break follows. -/
theorem normal_form_round_trip :
    (∀ d t, AccessTable.build d = .ok t → (AccessTable.parse t.pretty = .ok t ↔ t.Canonical)) ∧
    (∀ v t, AccessTable.ofDocument v = .ok t → t.Canonical) ∧
    (∀ text t, AccessTable.parse text = .ok t → t.Canonical) ∧
    (∀ f out, normalize f = .ok out →
      (∃ text t, f.text = some text ∧ AccessTable.parse text = .ok t ∧ out = t.pretty) ∧
      ∀ name, normalize ⟨name, some out⟩ = .ok out) ∧
    (∀ texts file ending, (Command.normalize file).carryOut texts = .ok ending →
      ∀ texts' file', texts' file' = some ending.output →
        (Command.normalize file').carryOut texts' = .ok ending) := by
  refine ⟨fun d t hb => ⟨AccessTable.canonical_of_parse, fun hc => ?_⟩,
    fun v t => AccessTable.canonical_of_ofDocument, fun text t => AccessTable.canonical_of_parse, ?_, ?_⟩
  · have h := parse_pretty_of_build hb hc "" Json.Reader.blank_nil
    rwa [String.append_empty] at h
  · intro f out h
    obtain ⟨text, t, hf, ht, rfl⟩ := normalize_eq_ok_iff.1 h
    refine ⟨⟨text, t, hf, ht, rfl⟩, fun name => ?_⟩
    have h := parse_pretty_of_parse ht "" Json.Reader.blank_nil
    rw [String.append_empty] at h
    exact normalize_eq_ok_iff.2 ⟨_, t, rfl, h, rfl⟩
  · intro texts file ending h texts' file' hfile
    obtain ⟨text, t, _, ht, rfl⟩ := carryOut_normalize_eq_ok_iff.1 h
    have h := parse_pretty_of_parse ht "\n" (Json.Reader.blank_newline 0)
    exact carryOut_normalize_eq_ok_iff.2 ⟨_, t, hfile, h, rfl⟩

/-- Empty entries are kept; a role that is named like the key of a built-in action is not. -/
theorem normal_form_round_trip_empty_entries :
    (let d : Declaration := {
      roles := .ofList [("self", .table (.ofList [(.read, ∅), (.custom "ban", .ofList ["id"])])),
        ("guest", .rules [])] }
    ∃ t, AccessTable.build d = .ok t ∧ AccessTable.parse t.pretty = .ok t) ∧
    (let d : Declaration := { roles := .ofList [("read", .rules [.everyField .update])] }
    ∃ t, AccessTable.build d = .ok t ∧ AccessTable.parse t.pretty ≠ .ok t) := by
  constructor
  · intro d
    have hb : AccessTable.build d = .ok d.compile := rfl
    exact ⟨d.compile, hb, (normal_form_round_trip.1 d _ hb).2 ⟨by decide, by decide⟩⟩
  · intro d
    have hb : AccessTable.build d = .ok d.compile := rfl
    refine ⟨d.compile, hb, fun h => ?_⟩
    have hc := (normal_form_round_trip.1 d _ hb).1 h
    exact absurd (hc.roles "read" (by decide)) (by decide)

end FieldAccess.Tool
