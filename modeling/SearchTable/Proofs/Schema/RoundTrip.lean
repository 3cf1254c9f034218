import SearchTable.Proofs.Json.Reading
import SearchTable.Proofs.Schema.Merging
import SearchTable.Schema.Json
/-!
# Schemas written as JSON and read again

A switch of a field is written beside the fixed parts of its definition, so a switch with the name
of a fixed part makes that part occur twice.  Reading refuses such a text, and every other one gives
back the schema it was written from (`Schema.ofJsonText_toJson`).

Of a schema that was read from its own notation, `stored` and `indexed` are never switches: they are
taken into the definition.  `name` and `type` are not, so exactly these two names keep a schema from
being read back (`Schema.ofJsonText_iff_of_ofText`).
-/

namespace SearchTable

open Json

namespace FieldDef

variable {f : FieldDef}

/-! ## One definition -/

/-- No switch has the name of a fixed part. -/
def FlagsApart (f : FieldDef) : Prop := ∀ part ∈ fixedParts, f.flags.contains part = false

/-- Neither truth value is among the switches. -/
def NoTruthFlags (f : FieldDef) : Prop :=
  f.flags.contains "stored" = false ∧ f.flags.contains "indexed" = false

instance (f : FieldDef) : Decidable f.FlagsApart :=
  inferInstanceAs (Decidable (∀ part ∈ fixedParts, f.flags.contains part = false))

/-- The switches of a definition as they are read. -/
def flagMembers (f : FieldDef) : List (String × Source) :=
  f.flags.entries.map fun (name, value) => (name, .text (some value))

/-- The members of a definition as they are read. -/
def members (f : FieldDef) : List (String × Source) :=
  [("name", .text (some f.name)), ("type", .text (some f.type)), ("stored", .bool f.stored),
    ("indexed", .bool f.indexed)] ++ f.flagMembers

/-- The source as which a definition is read. -/
def source (f : FieldDef) : Source := .ofMembers f.members

theorem isReadAs_toJson (f : FieldDef) : IsReadAs f.toJson f.source := by
  refine isReadAs_object ?_
  simp [members, flagMembers, isReadAs_text, isReadAs_bool]

theorem named_flagMembers_eq_nil_iff (f : FieldDef) (part : String) :
    Source.named part f.flagMembers = [] ↔ f.flags.contains part = false := by
  simp only [Source.named, flagMembers, List.map_eq_nil_iff, List.filter_eq_nil_iff,
    List.forall_mem_map, beq_iff_eq, Dictionary.contains, Option.isSome_eq_false_iff,
    Option.isNone_iff_eq_none, Option.eq_none_iff_forall_ne_some]
  constructor
  · intro h value hvalue
    exact h (part, value) (Dictionary.mem_entries_iff.2 hvalue) rfl
  · rintro h ⟨name, value⟩ hmem rfl
    exact h value (Dictionary.mem_entries_iff.1 hmem)

/-- A fixed part is found once, unless there is a switch of its name. -/
theorem required_members (f : FieldDef) (part : String) (value : Source)
    (hpart : Source.named part f.members = value :: Source.named part f.flagMembers) :
    Source.required part f.members = if f.flags.contains part then none else some value := by
  rw [Source.required, hpart]
  cases hflag : f.flags.contains part with
  | false => simp [(named_flagMembers_eq_nil_iff f part).2 hflag]
  | true =>
    have hne : Source.named part f.flagMembers ≠ [] := fun h => by
      simp [(named_flagMembers_eq_nil_iff f part).1 h] at hflag
    obtain ⟨v, vs, hvs⟩ := List.exists_cons_of_ne_nil hne
    simp [hvs]

theorem optional_members (f : FieldDef) (part : String) (value : Source)
    (hpart : Source.named part f.members = value :: Source.named part f.flagMembers) :
    Source.optional part f.members = if f.flags.contains part then none else some (some value) := by
  have hrequired := required_members f part value hpart
  rw [Source.required, hpart] at hrequired
  rw [Source.optional, hpart]
  cases hflag : f.flags.contains part <;> rw [hflag] at hrequired <;> split at hrequired <;>
    simp_all

/-- The members besides the fixed parts are the switches. -/
theorem filter_members (h : f.FlagsApart) :
    f.members.filter (fun m => !fixedParts.contains m.1) = f.flagMembers := by
  have hflags : f.flagMembers.filter (fun m => !fixedParts.contains m.1) = f.flagMembers := by
    refine List.filter_eq_self.2 fun m hm => ?_
    obtain ⟨⟨name, value⟩, hmem, rfl⟩ := List.mem_map.1 hm
    have hnot : name ∉ fixedParts := fun hfixed => by
      have hflag := h name hfixed
      rw [Dictionary.contains, Dictionary.mem_entries_iff.1 hmem] at hflag
      cases hflag
    simpa using hnot
  rw [members, List.filter_append, hflags]
  simp [fixedParts]

/-- A definition is read as itself, or not at all when a switch has the name of a fixed part. -/
theorem ofSource?_source (f : FieldDef) :
    ofSource? f.source = if f.FlagsApart then some f else none := by
  have hname := required_members f "name" (.text (some f.name))
    (by simp [Source.named, members])
  have htype := required_members f "type" (.text (some f.type))
    (by simp [Source.named, members])
  have hstored := optional_members f "stored" (.bool f.stored)
    (by simp [Source.named, members])
  have hindexed := optional_members f "indexed" (.bool f.indexed)
    (by simp [Source.named, members])
  by_cases h : f.FlagsApart
  · have hapart : ∀ part ∈ fixedParts, f.flags.contains part = false := h
    simp only [fixedParts, List.forall_mem_cons] at hapart
    rw [if_pos h, ofSource?, source, Source.toMembers?_ofMembers]
    simp only [Option.bind_eq_bind, Option.bind_some, hname, htype, hstored, hindexed, hapart,
      filter_members h]
    rw [flagMembers, mapM_map_eq_some]
    · simp [switchOf, Source.toText?, Source.toBool?, Dictionary.ofList_entries]
    · intro flag _
      rfl
  · rw [if_neg h, ofSource?, source, Source.toMembers?_ofMembers]
    simp only [FlagsApart, fixedParts, List.forall_mem_cons, not_and_or, Bool.not_eq_false,
      List.not_mem_nil, false_implies, implies_true, not_true, or_false] at h
    rcases h with h | h | h | h <;> simp [hname, htype, hstored, hindexed, h]

end FieldDef

namespace Schema

variable {s : Schema} {text json : String} {uniqueKey : Option String}

/-! ## One schema -/

/-- No switch of a field has the name of a fixed part. -/
def FlagsApart (s : Schema) : Prop := ∀ field ∈ s.fields.entries, field.2.FlagsApart

instance (s : Schema) : Decidable s.FlagsApart :=
  inferInstanceAs (Decidable (∀ field ∈ s.fields.entries, field.2.FlagsApart))

/-- The source as which a schema is read. -/
def source (s : Schema) : Source :=
  .ofMembers [("unique_key", .text (some s.uniqueKey)),
    ("fields", .ofMembers (s.fields.entries.map fun (name, f) => (name, f.source)))]

theorem isReadAs_toJson (s : Schema) : IsReadAs s.toJson s.source := by
  refine isReadAs_object ?_
  have hfields : IsReadAs (.object (s.fields.entries.map fun (name, f) => (name, f.toJson)))
      (.ofMembers (s.fields.entries.map fun (name, f) => (name, f.source))) :=
    isReadAs_object (by simp [FieldDef.isReadAs_toJson])
  simp [isReadAs_text, hfields]

theorem fieldsOf_source (d : Dictionary FieldDef) :
    fieldsOf (some (.ofMembers (d.entries.map fun (name, f) => (name, f.source)))) =
      if ∀ field ∈ d.entries, field.2.FlagsApart then some d else none := by
  simp only [fieldsOf, Source.toMembers?_ofMembers, Option.bind_eq_bind, Option.bind_some]
  split_ifs with h
  · rw [mapM_map_eq_some, Option.bind_some, Dictionary.ofList_entries]
    intro field hmem
    simp [FieldDef.ofSource?_source, h field hmem]
  · push Not at h
    obtain ⟨⟨name, f⟩, hmem, hnot⟩ := h
    rw [mapM_eq_none (List.mem_map.2 ⟨(name, f), hmem, rfl⟩)]
    · rfl
    · simp [FieldDef.ofSource?_source, hnot]

/-- A schema is read as itself, or not at all when a switch has the name of a fixed part. -/
theorem ofSource?_source (s : Schema) :
    ofSource? s.source = if s.FlagsApart then some s else none := by
  have hfields : fieldsOf (some (.ofMembers (s.fields.entries.map fun (name, f) =>
      (name, f.source)))) = if s.FlagsApart then some s.fields else none := fieldsOf_source s.fields
  have hread : ofSource? s.source =
      (fieldsOf (some (.ofMembers (s.fields.entries.map fun (name, f) => (name, f.source))))).bind
        fun fields => some ⟨s.uniqueKey, fields⟩ := rfl
  rw [hread, hfields]
  split_ifs <;> rfl

/-- A schema that has been written as JSON is read as itself, or refused when a switch has the name
of a fixed part. -/
theorem ofJsonText_toJson (s : Schema)
    (hjson : json = s.toJson.compact ∨ json = s.toJson.indented) :
    ofJsonText json = if s.FlagsApart then .ok s else .error .json := by
  rw [ofJsonText, s.isReadAs_toJson.ofText? hjson, Option.bind_some, ofSource?_source]
  by_cases h : s.FlagsApart <;> simp [h]

/-! ## Schemas from text -/

theorem noTruthFlags_applyFlag {f g : FieldDef} {flag : String} (h : applyFlag f flag = .ok g)
    (hf : f.NoTruthFlags) : g.NoTruthFlags := by
  rw [applyFlag] at h
  obtain ⟨key, value⟩ := flagParts flag
  dsimp only at h
  split_ifs at h with hstored hindexed
  · obtain ⟨b, -, hg⟩ := bind_eq_ok_iff.1 h
    exact Except.ok.inj hg ▸ hf
  · obtain ⟨b, -, hg⟩ := bind_eq_ok_iff.1 h
    exact Except.ok.inj hg ▸ hf
  · obtain rfl := Except.ok.inj h
    simpa [FieldDef.NoTruthFlags, Dictionary.contains, Ne.symm hstored, Ne.symm hindexed] using hf

theorem noTruthFlags_readEntry {entry : String} {f : FieldDef} (h : readEntry entry = .ok f) :
    f.NoTruthFlags := by
  have hflags : ∀ (flags : List String) (start : FieldDef), start.NoTruthFlags →
      flags.foldlM applyFlag start = .ok f → f.NoTruthFlags := by
    intro flags
    induction flags with
    | nil =>
      intro start hstart h
      exact Except.ok.inj h ▸ hstart
    | cons flag flags ih =>
      intro start hstart h
      obtain ⟨next, hnext, hrest⟩ := bind_eq_ok_iff.1 h
      exact ih next (noTruthFlags_applyFlag hnext hstart) hrest
  rw [readEntry] at h
  split at h
  · exact hflags _ _ ⟨rfl, rfl⟩ h
  · cases h

theorem noTruthFlags_ofText (h : ofText text uniqueKey = .ok s) :
    ∀ name f, s.fields.get? name = some f → f.NoTruthFlags := by
  refine ofText_induction (P := fun s => ∀ name f, s.fields.get? name = some f →
    f.NoTruthFlags) (fun name f hf => ?_) (fun s entry g hs hg name f hf => ?_) h
  · simp [ofKey] at hf
  · rw [get?_add] at hf
    split at hf
    · exact Option.some.inj hf ▸ noTruthFlags_readEntry hg
    · exact hs name f hf

/-- A schema that has been read from its notation keeps apart from its fixed parts exactly when no
switch is called `name` or `type`. -/
theorem flagsApart_iff_of_ofText (h : ofText text uniqueKey = .ok s) :
    s.FlagsApart ↔ ∀ name f, s.fields.get? name = some f →
      f.flags.contains "name" = false ∧ f.flags.contains "type" = false := by
  constructor
  · intro hs name f hf
    have hapart := hs (name, f) (Dictionary.mem_entries_iff.2 hf)
    exact ⟨hapart "name" (by decide), hapart "type" (by decide)⟩
  · rintro hs ⟨name, f⟩ hmem
    rw [Dictionary.mem_entries_iff] at hmem
    obtain ⟨hname, htype⟩ := hs name f hmem
    obtain ⟨hstored, hindexed⟩ := noTruthFlags_ofText h name f hmem
    simp [FieldDef.FlagsApart, FieldDef.fixedParts, hname, htype, hstored, hindexed]

/-- A schema that has been read from its notation and written as JSON, in either layout, is read as
itself exactly when no switch is called `name` or `type`; any other one is refused. -/
theorem ofJsonText_iff_of_ofText (h : ofText text uniqueKey = .ok s)
    (hjson : json = s.toJson.compact ∨ json = s.toJson.indented) :
    (ofJsonText json = .ok s ↔ ∀ name f, s.fields.get? name = some f →
      f.flags.contains "name" = false ∧ f.flags.contains "type" = false) ∧
    (ofJsonText json = .ok s ∨ ofJsonText json = .error .json) := by
  rw [← flagsApart_iff_of_ofText h, ofJsonText_toJson s hjson]
  by_cases hapart : s.FlagsApart <;> simp [hapart]

theorem ofJsonText_iff_boostedTitle :
    let text := "title string stored:false boost:2"
    let s : Schema := ⟨"key", .ofList [("title", ⟨"title", "string", false, true,
      .ofList [("boost", "2")]⟩)]⟩
    ofText text (some "key") = .ok s ∧
      (ofJsonText s.toJson.compact = .ok s ↔ ∀ name f, s.fields.get? name = some f →
        f.flags.contains "name" = false ∧ f.flags.contains "type" = false) ∧
      ofJsonText s.toJson.compact = .ok s := by
  intro text s
  have htext : ofText text (some "key") = .ok s := by cbv
  have hiff := (ofJsonText_iff_of_ofText htext (.inl rfl)).1
  have hread : ofJsonText s.toJson.compact = .ok s := by
    rw [ofJsonText_toJson s (.inl rfl), if_pos (by decide)]
  exact ⟨htext, hiff, hread⟩

/-- A switch called `name` is written beside the name of the field, and the text is refused. -/
theorem ofJsonText_nameSwitch :
    ∃ s, ofText "a string name:x" none = .ok s ∧ ofJsonText s.toJson.compact = .error .json := by
  let s : Schema := ⟨idField, .ofList [("a", ⟨"a", "string", true, true,
    .ofList [("name", "x")]⟩)]⟩
  have htext : ofText "a string name:x" none = .ok s := by cbv
  refine ⟨s, htext, ?_⟩
  rw [ofJsonText_toJson s (.inl rfl), if_neg (by decide)]

end Schema

end SearchTable
