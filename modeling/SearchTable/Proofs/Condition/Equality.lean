import SearchTable.Proofs.Condition.Meaning
import SearchTable.Proofs.Number.Text
import SearchTable.Proofs.Table.Reading
/-!
# Looking values up by equality

A condition asks whether a field equals a value.  The document holds the value as it is stored, a
single widened to a double and an integer as it is; the query holds its text, and beside a stored
number both are compared as doubles.

Of truth values, texts, integers of 32 bits and doubles an equality finds the equal ones and no
others.  Two types are not looked up exactly (`holds_equality_iff`).  The text of a single has the
digits that tell it from other singles.  Read as a double they may miss it, unless they are its very
value (`Value.isExact_of_toRat`), but they never hit another single.  Different integers of 64 bits
may have the same nearest double, so that one finds the other (`Value.Confused`); up to the length
of a significand they have not (`Value.not_confused`).
-/

namespace SearchTable

open Number Query Text

/-! ## Values that are equal -/

namespace Value

/-- Equal values.  Numbers are equal when they compare so, which makes the two zeros one value. -/
def Equals : Value → Value → Prop
  | float x, float y => x.Same y
  | double x, double y => x.Same y
  | v, w => v = w

/-- The text of a value is read as the number that is stored for it.  Only the digits of a single
can miss that, since they are read with double precision. -/
def IsExact : Value → Prop
  | float x => (readBinary x.text : Option (Binary .double)) = some (x.convert .double)
  | _ => True

/-- Two integers of 64 bits that are not equal but have the same nearest double. -/
def Confused : Value → Value → Prop
  | long m, long n => m ≠ n ∧ (Binary.ofInt m.toInt : Binary .double).Same (.ofInt n.toInt)
  | _, _ => False

end Value

/-! ## Comparing a stored value with a literal -/

theorem Text.trim_eq_self {s : String} (h : ∀ c ∈ s.toList, isBlank c = false) : trim s = s := by
  have hdrop {cs : List Char} (h : ∀ c ∈ cs, isBlank c = false) : cs.dropWhile isBlank = cs := by
    cases cs with
    | nil => rfl
    | cons c cs => simp [h c (by simp)]
  rw [trim, trimChars, hdrop h, hdrop fun c hc => h c (List.mem_reverse.1 hc), List.reverse_reverse,
    String.ofList_toList]

section Numbers

variable {stored : Stored} {x y : Binary .double} {s : String}

/-- Beside a stored number a literal without blanks is read as a number. -/
theorem compareLiteral_number (hstored : toNumber? stored = some x)
    (hbare : ∀ c ∈ s.toList, BareInLiteral c) (hread : readBinary s = some y) :
    compareLiteral stored s = some .eq ↔ x.Same y := by
  have hblank : ∀ c ∈ s.toList, isBlank c = false := fun c hc =>
    (passes_of_bareInLiteral (hbare c hc)).isBlank_eq
  simp only [compareLiteral, hstored, trim_eq_self hblank, hread, Option.bind_some, Binary.Same]

theorem compareLiteral_integerText (hstored : toNumber? stored = some x) (n : Int) :
    compareLiteral stored (integerText n) = some .eq ↔ x.Same (.ofInt n) :=
  compareLiteral_number hstored (bareInLiteral_integerText n) (readBinary_integerText n)

theorem same_ofInt_int32 (m n : Int32) :
    (Binary.ofInt m.toInt : Binary .double).Same (.ofInt n.toInt) ↔ m = n := by
  have hbound (k : Int32) : k.toInt.natAbs ≤ 2 * Width.double.binade := by
    have hlow := k.le_toInt
    have hhigh := k.toInt_lt
    have hbinade : 2 * Width.double.binade = 2 ^ 53 := by decide
    omega
  rw [Binary.same_ofInt (hbound m) (hbound n), Int32.toInt_inj]

/-- Beside a stored single the text of a single is as good as the single itself, if it is exact. -/
theorem compareLiteral_single (x : Binary .single) (y : Binary .single) :
    compareLiteral (.double (x.convert .double)) y.text = some .eq ↔
      x.Same y ∧ (Value.float y).IsExact := by
  obtain ⟨z, hread, hsame⟩ := Binary.exists_readBinary_text_double y
  rw [compareLiteral_number rfl (bareInLiteral_text y) hread, hsame, Value.IsExact, hread,
    Option.some_inj]

theorem compareLiteral_double (x : Binary .double) (y : Binary .double) :
    compareLiteral (.double x) y.text = some .eq ↔ x.Same y :=
  compareLiteral_number rfl (bareInLiteral_text y) y.readBinary_text

end Numbers

theorem compareLiteral_bool (a b : Bool) :
    compareLiteral (.bool a) (Value.bool b).plain = some .eq ↔ a = b := by
  cases a <;> cases b <;> decide

theorem compareLiteral_text (s t : String) : compareLiteral (.text s) t = some .eq ↔ s = t := by
  simp [compareLiteral, toNumber?]

/-- Integers of 64 bits that a significand can hold are never confused. -/
theorem Value.not_confused {m n : Int64} (hm : m.toInt.natAbs ≤ 2 ^ 53)
    (hn : n.toInt.natAbs ≤ 2 ^ 53) : ¬ (long m).Confused (long n) := by
  rintro ⟨hne, hsame⟩
  exact hne (Int64.toInt_inj.1 ((Binary.same_ofInt hm hn).1 hsame))

/-- A single whose shortest digits are its value, and not only near to it, is exact. -/
theorem Value.isExact_of_toRat {negative : Bool} {rank : Fin (Width.single.infinityRank + 1)}
    (hrank : 0 < rank.val) (hfinite : rank.val < Width.single.infinityRank)
    (h : (shortest .single .up rank.val).toRat = value .single rank.val) :
    (float (.number negative rank)).IsExact := by
  obtain ⟨wide, hvalue⟩ := exists_value_double rank.val
  have hwide := lt_infinityRank_double hfinite.le hvalue
  have hpos : 0 < wide := by
    rw [Nat.pos_iff_ne_zero, Ne, ← value_eq_zero_iff, hvalue, value_eq_zero_iff]
    exact hrank.ne'
  have hround := Decimal.toRank_of_toRat (inRange_shortest .up hrank hfinite) hpos hwide
    (h.trans hvalue.symm)
  have hwiden : (Binary.number negative rank).convert .double =
      .number negative ⟨wide, Nat.lt_succ_of_lt hwide⟩ := Binary.convert_eq hfinite hwide hvalue
  rw [IsExact, Binary.readBinary_text_finite negative hfinite, hround, hwiden]
  exact congrArg some (Binary.ofRank_eq negative ⟨wide, Nat.lt_succ_of_lt hwide⟩)

/-- The stored value compares as equal with the text of a value of its type exactly when the values
are equal and the text is exact, or when they are two integers with the same nearest double. -/
theorem compareLiteral_toStored_iff {v w : Value} {type : ColumnType}
    (htype : type ≠ .object) (hv : v.columnType? = some type) (hw : w.columnType? = some type) :
    compareLiteral v.toStored w.plain = some .eq ↔ v.Equals w ∧ w.IsExact ∨ v.Confused w := by
  cases v with
  | null => cases hv
  | object _ => exact absurd (Option.some.inj hv).symm htype
  | int m =>
    cases w with
    | int n =>
      rw [Value.toStored, Value.plain, compareLiteral_integerText rfl, same_ofInt_int32]
      simp [Value.Equals, Value.IsExact, Value.Confused]
    | _ => cases hv.trans hw.symm
  | long m =>
    cases w with
    | long n =>
      rw [Value.toStored, Value.plain, compareLiteral_integerText rfl]
      by_cases heq : m = n
      · subst heq
        simp [Value.Equals, Value.IsExact, Binary.same_self, Binary.ofInt_ne_nan]
      · simp [Value.Equals, Value.IsExact, Value.Confused, heq]
    | _ => cases hv.trans hw.symm
  | float x =>
    cases w with
    | float y =>
      rw [Value.toStored, Value.plain, compareLiteral_single]
      simp [Value.Equals, Value.Confused]
    | _ => cases hv.trans hw.symm
  | double x =>
    cases w with
    | double y =>
      rw [Value.toStored, Value.plain, compareLiteral_double]
      simp [Value.Equals, Value.IsExact, Value.Confused]
    | _ => cases hv.trans hw.symm
  | bool a =>
    cases w with
    | bool b =>
      rw [Value.toStored, compareLiteral_bool]
      simp [Value.Equals, Value.IsExact, Value.Confused]
    | _ => cases hv.trans hw.symm
  | text s =>
    cases w with
    | text t =>
      rw [Value.toStored, Value.plain, compareLiteral_text]
      simp [Value.Equals, Value.IsExact, Value.Confused]
    | _ => cases hv.trans hw.symm

/-! ## Looking a value up -/

namespace Condition

/-- The condition that a field equals a value. -/
def equality (field : String) (type : ColumnType) (w : Value) : Expression :=
  .compare .equal (.field field type) (.constant w)

/-- A field with one scalar value offers that value alone. -/
theorem fieldValues_single (field : String) {v : Value} {type : ColumnType}
    (htype : type ≠ .object) (hv : v.columnType? = some type) :
    fieldValues (.ofList [(field, v.toStored)]) field = [v.toStored] := by
  have hget : (Document.ofList [(field, v.toStored)]).get? field = some v.toStored := by
    simp [Document.ofList]
  rw [fieldValues, hget]
  cases v with
  | null => cases hv
  | object _ => exact absurd (Option.some.inj hv).symm htype
  | _ => rfl

/-- Without stream variables an equality resolves to its own text, and the query that this denotes
holds of a document when a value of the field compares as equal with the text of the value. -/
theorem exists_node_equality {field : String} (hfield : IsPlainName field) (type : ColumnType)
    (w : Value) (b : Bindings)
    (hlength : (compile (equality field type w)).query.utf8ByteSize ≤ maxLength) :
    (compile (equality field type w)).resolve b = .ok (compile (equality field type w)).query ∧
      ∃ node, parse (compile (equality field type w)).query = .ok node ∧
        ∀ d, node.holds d = Comparison.someValue d field w.plain Ordering.isEq := by
  have hnames : ∀ name ∈ (equality field type w).fields, IsPlainName name := by
    simp [equality, Expression.fields, hfield]
  have hplaceholders : (compile (equality field type w)).placeholders = [] := rfl
  have hmeans := means_fragment? b (equality field type w) hnames
    (fun _ hid => absurd hid List.not_mem_nil) fun _ hv => absurd hv List.not_mem_nil
  obtain ⟨node, hread, htruth⟩ := hmeans.exists_node
  refine ⟨?_, node, parse_eq_ok hread hlength (show 2 ≤ maxDepth by decide), fun d => ?_⟩
  · exact resolve_of_captures hnames (fun _ hid => absurd hid List.not_mem_nil)
      (by simp [hplaceholders]) (captures_eq_false _ (.inl hplaceholders))
  · rw [htruth]
    rfl

/-- An equality with a value finds a document with a value of the same type exactly when the two are
equal and the text of the value is exact, or when they are two integers of 64 bits that have the
same nearest double. -/
theorem holds_equality_iff {field : String} (hfield : IsPlainName field) {type : ColumnType}
    (htype : type ≠ .object) {v w : Value} (hv : v.columnType? = some type)
    (hw : w.columnType? = some type) (b : Bindings)
    (hlength : (compile (equality field type w)).query.utf8ByteSize ≤ maxLength) :
    ∃ text node, (compile (equality field type w)).resolve b = .ok text ∧ parse text = .ok node ∧
      (node.holds (.ofList [(field, v.toStored)]) = true ↔
        v.Equals w ∧ w.IsExact ∨ v.Confused w) := by
  obtain ⟨hresolve, node, hparse, htruth⟩ := exists_node_equality hfield type w b hlength
  refine ⟨_, node, hresolve, hparse, ?_⟩
  rw [htruth, Comparison.someValue, fieldValues_single field htype hv,
    ← compareLiteral_toStored_iff htype hv hw, List.any_cons, List.any_nil, Bool.or_false]
  cases compareLiteral v.toStored w.plain with
  | none => simp
  | some o => cases o <;> simp

/-- A tenth with double precision finds itself, and so does a half with single precision, whose
digits are its value.  Of two integers that a significand can hold neither finds the other. -/
theorem holds_equality_tenthAndHalf :
    let tenth := Value.double (Binary.ofBits 4591870180066957722)
    let half := Value.float (Binary.ofBits 1056964608)
    let even := Value.long 9007199254740992
    let odd := Value.long 9007199254740991
    let answers := fun (type : ColumnType) (v w : Value) (found : Bool) =>
      (compile (equality "f_1" type w)).query.utf8ByteSize ≤ maxLength ∧
        ∃ text node, (compile (equality "f_1" type w)).resolve .empty = .ok text ∧
          parse text = .ok node ∧ node.holds (.ofList [("f_1", v.toStored)]) = found
    IsPlainName "f_1" ∧ answers .double tenth tenth true ∧ answers .float half half true ∧
      answers .long odd even false := by
  intro tenth half even odd answers
  have hfield : IsPlainName "f_1" := by decide
  have htenth : answers .double tenth tenth true := by
    have hlength : (compile (equality "f_1" .double tenth)).query.utf8ByteSize ≤ maxLength := by
      decide +kernel
    obtain ⟨text, node, hresolve, hparse, hiff⟩ :=
      holds_equality_iff hfield (by decide) (v := tenth) rfl rfl .empty hlength
    exact ⟨hlength, text, node, hresolve, hparse,
      hiff.2 (.inl ⟨Binary.same_self (by decide), trivial⟩)⟩
  have hhalf : answers .float half half true := by
    have hlength : (compile (equality "f_1" .float half)).query.utf8ByteSize ≤ maxLength := by
      decide +kernel
    have hexact : (Value.float (.number false ⟨1056964608, by decide⟩)).IsExact :=
      Value.isExact_of_toRat (by decide) (by decide) (by decide +kernel)
    obtain ⟨text, node, hresolve, hparse, hiff⟩ :=
      holds_equality_iff hfield (by decide) (v := half) rfl rfl .empty hlength
    exact ⟨hlength, text, node, hresolve, hparse,
      hiff.2 (.inl ⟨Binary.same_self (by decide), hexact⟩)⟩
  have hodd : answers .long odd even false := by
    have hlength : (compile (equality "f_1" .long even)).query.utf8ByteSize ≤ maxLength := by
      decide +kernel
    obtain ⟨text, node, hresolve, hparse, hiff⟩ :=
      holds_equality_iff hfield (by decide) (v := odd) rfl rfl .empty hlength
    refine ⟨hlength, text, node, hresolve, hparse, Bool.eq_false_iff.2 fun hholds => ?_⟩
    obtain ⟨hequal, -⟩ | hconfused := hiff.1 hholds
    · exact absurd hequal (by simp [Value.Equals, odd, even])
    · exact Value.not_confused (by decide) (by decide) hconfused
  exact ⟨hfield, htenth, hhalf, hodd⟩

/-- A single is printed with digits for 32 bits and read with 64, so a tenth does not find itself;
and an integer that no double stands for is found by its neighbour. -/
theorem not_holds_equality_tenth :
    let tenth := Value.float (Binary.ofBits 1036831949)
    let even := Value.long 9007199254740992
    let odd := Value.long 9007199254740993
    tenth.plain = "0.1" ∧ tenth.Equals tenth ∧
      (∃ node, parse (compile (equality "f" .float tenth)).query = .ok node ∧
        node.holds (.ofList [("f", tenth.toStored)]) = false) ∧
      ¬ odd.Equals even ∧
      (∃ node, parse (compile (equality "f" .long even)).query = .ok node ∧
        node.holds (.ofList [("f", odd.toStored)]) = true) := by
  intro tenth even odd
  have hfield : IsPlainName "f" := by decide
  have htenth : tenth.plain = "0.1" := by decide +kernel
  refine ⟨htenth, Binary.same_self (by decide), ?_, by simp [Value.Equals, odd, even], ?_⟩
  · obtain ⟨-, node, hparse, hholds⟩ :=
      exists_node_equality hfield .float tenth .empty (by decide +kernel)
    refine ⟨node, hparse, ?_⟩
    rw [hholds]
    decide +kernel
  · obtain ⟨-, node, hparse, hholds⟩ :=
      exists_node_equality hfield .long even .empty (by decide +kernel)
    refine ⟨node, hparse, ?_⟩
    rw [hholds]
    decide +kernel

end Condition

end SearchTable
