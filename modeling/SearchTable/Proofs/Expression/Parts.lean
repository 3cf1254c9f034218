import SearchTable.Expression.Form
import SearchTable.Proofs.Failure
/-!
# What reading a notation keeps

The parts of an expression are its fields, stream variables and constants, and its calls with the
number of their arguments, from left to right; those other than calls are its leaves.  Every operand
has a part, so an operand that is lost is seen among the parts.

Reading a notation gives each part its meaning (`Part.Reads`) and keeps the order, but a call has
only its first `maxArguments` arguments in the expression.  `Form.kept` is the notation without the
other ones: it has the same reading (`Form.toExpression_kept`), and the parts of the expression are
its parts.  So nothing is lost exactly when no call has more arguments, and no leaf exactly when the
arguments that are cut off have none (`toExpression_parts`).
-/

namespace SearchTable.Expression

/-! ## Parts -/

/-- What an expression is made of, its operators aside. -/
inductive Part (α : Type) where
  | field (name : String)
  | variable (id : String)
  | constant (value : α)
  | call (module : Option String) (name : String) (width : Nat)
  deriving Repr

namespace Part

variable {α : Type}

/-- Whether a part is a field, a stream variable or a constant. -/
def isLeaf : Part α → Bool
  | .call .. => false
  | _ => true

/-- A call has no more arguments than are looked at. -/
def IsNarrow : Part α → Prop
  | .call _ _ width => width ≤ Form.maxArguments
  | _ => True

instance (p : Part α) : Decidable p.IsNarrow :=
  match p with
  | .field _ | .variable _ | .constant _ => .isTrue trivial
  | .call _ _ width => inferInstanceAs (Decidable (width ≤ Form.maxArguments))

/-- The meaning of a part: the value of a constant, and any other part itself. -/
inductive Reads : Part Json → Part Value → Prop
  | field (name : String) : Reads (.field name) (.field name)
  | variable (id : String) : Reads (.variable id) (.variable id)
  | constant {json : Json} {value : Value} (h : Form.constantValue json = .ok value) :
      Reads (.constant json) (.constant value)
  | call (module : Option String) (name : String) (width : Nat) :
      Reads (.call module name width) (.call module name width)

end Part

/-- The name of the field that is referred to. -/
def FieldForm.target : FieldForm → String
  | FieldForm.name target => target
  | .typed target _ => target

namespace Form

mutual

/-- The parts of a notation. -/
def parts : Form → List (Part Json)
  | .and operands => partsOfAll operands
  | .or operands => partsOfAll operands
  | .not x => x.parts
  | .compare _ l r => l.parts ++ r.parts
  | .isNull x => x.parts
  | .isIn x _ => x.parts
  | .constant value => [.constant value]
  | .variable id => [.variable id]
  | .field reference => [.field reference.target]
  | .math _ l r => l.parts ++ r.parts
  | .call module name arguments => .call module name arguments.length :: partsOfAll arguments

/-- The parts of a list of notations. -/
def partsOfAll : List Form → List (Part Json)
  | [] => []
  | f :: fs => f.parts ++ partsOfAll fs

end

mutual

/-- A notation without the arguments that are not looked at. -/
def kept : Form → Form
  | .and operands => .and (keptAll operands)
  | .or operands => .or (keptAll operands)
  | .not x => .not x.kept
  | .compare op l r => .compare op l.kept r.kept
  | .isNull x => .isNull x.kept
  | .isIn x source => .isIn x.kept source
  | .constant value => .constant value
  | .variable id => .variable id
  | .field reference => .field reference
  | .math op l r => .math op l.kept r.kept
  | .call module name arguments => .call module name ((keptAll arguments).take maxArguments)

/-- The notations of a list without the arguments that are not looked at. -/
def keptAll : List Form → List Form
  | [] => []
  | f :: fs => f.kept :: keptAll fs

end

/-- The fields, stream variables and constants of a notation. -/
def leaves (form : Form) : List (Part Json) := form.parts.filter Part.isLeaf

theorem partsOfAll_eq (forms : List Form) : partsOfAll forms = forms.flatMap parts := by
  induction forms with
  | nil => rfl
  | cons f fs ih => rw [partsOfAll, ih, List.flatMap_cons]

theorem keptAll_eq (forms : List Form) : keptAll forms = forms.map kept := by
  induction forms with
  | nil => rfl
  | cons f fs ih => rw [keptAll, ih, List.map_cons]

theorem take_keptAll (forms : List Form) (n : Nat) :
    (keptAll forms).take n = keptAll (forms.take n) := by
  rw [keptAll_eq, keptAll_eq, List.map_take]

end Form

mutual

/-- The parts of an expression. -/
def parts : Expression → List (Part Value)
  | .and l r => l.parts ++ r.parts
  | .or l r => l.parts ++ r.parts
  | .not x => x.parts
  | .compare _ l r => l.parts ++ r.parts
  | .isNull x => x.parts
  | .isIn x _ => x.parts
  | .constant value => [.constant value]
  | .variable id => [.variable id]
  | .field name _ => [.field name]
  | .math _ l r => l.parts ++ r.parts
  | .call module name arguments => .call module name arguments.length :: partsOfAll arguments

/-- The parts of a list of expressions. -/
def partsOfAll : List Expression → List (Part Value)
  | [] => []
  | x :: xs => x.parts ++ partsOfAll xs

end

/-- The fields, stream variables and constants of an expression. -/
def leaves (e : Expression) : List (Part Value) := e.parts.filter Part.isLeaf

theorem partsOfAll_eq (es : List Expression) : partsOfAll es = es.flatMap parts := by
  induction es with
  | nil => rfl
  | cons e es ih => rw [partsOfAll, ih, List.flatMap_cons]

/-! ## Induction over notations -/

namespace Form

/-- A property of notations that lists of operands and of arguments pass on. -/
theorem induction {motive : Form → Prop}
    (hand : ∀ operands, (∀ f ∈ operands, motive f) → motive (.and operands))
    (hor : ∀ operands, (∀ f ∈ operands, motive f) → motive (.or operands))
    (hnot : ∀ x, motive x → motive (.not x))
    (hcompare : ∀ op l r, motive l → motive r → motive (.compare op l r))
    (hisNull : ∀ x, motive x → motive (.isNull x))
    (hisIn : ∀ x source, motive x → motive (.isIn x source))
    (hconstant : ∀ value, motive (.constant value)) (hvariable : ∀ id, motive (.variable id))
    (hfield : ∀ reference, motive (.field reference))
    (hmath : ∀ op l r, motive l → motive r → motive (.math op l r))
    (hcall : ∀ module name arguments, (∀ f ∈ arguments, motive f) →
      motive (.call module name arguments)) (form : Form) : motive form :=
  Form.rec (motive_2 := fun forms => ∀ f ∈ forms, motive f) hand hor hnot hcompare hisNull hisIn
    hconstant hvariable hfield hmath hcall (fun _ h => by cases h)
    (fun _ _ hhead htail => List.forall_mem_cons.2 ⟨hhead, htail⟩) form

/-! ## Arguments that are not looked at -/

/-- The arguments that are not looked at make no difference, not even when they are faulty. -/
theorem toExpressionWithin_kept (levels : Nat) (form : Form) :
    form.kept.toExpressionWithin levels = form.toExpressionWithin levels := by
  induction levels generalizing form with
  | zero => rfl
  | succ levels ih =>
    have hall : ∀ forms : List Form,
        (keptAll forms).mapM (toExpressionWithin levels) =
          forms.mapM (toExpressionWithin levels) := by
      intro forms
      induction forms with
      | nil => rfl
      | cons f fs ihforms => rw [keptAll, List.mapM_cons, List.mapM_cons, ih, ihforms]
    cases form with
    | and operands | or operands => simp only [kept, toExpressionWithin, hall]
    | not x | isNull x | isIn x source => simp only [kept, toExpressionWithin, ih]
    | compare op l r | math op l r => simp only [kept, toExpressionWithin, ih]
    | constant value | «variable» id | field reference => rfl
    | call module name arguments =>
      simp only [kept, toExpressionWithin, take_keptAll, List.take_take, min_self, hall]

theorem toExpression_kept (form : Form) : form.kept.toExpression = form.toExpression :=
  toExpressionWithin_kept _ form

theorem mem_partsOfAll {forms : List Form} {p : Part Json} :
    p ∈ partsOfAll forms ↔ ∃ f ∈ forms, p ∈ f.parts := by
  rw [partsOfAll_eq, List.mem_flatMap]

/-- In what is kept, no call has more arguments than are looked at. -/
theorem isNarrow_kept (form : Form) : ∀ p ∈ form.kept.parts, p.IsNarrow := by
  have hall : ∀ forms : List Form, (∀ f ∈ forms, ∀ p ∈ f.kept.parts, p.IsNarrow) →
      ∀ p ∈ partsOfAll (keptAll forms), p.IsNarrow := by
    intro forms ih p hp
    obtain ⟨f, hf, hp⟩ := mem_partsOfAll.1 hp
    rw [keptAll_eq, List.mem_map] at hf
    obtain ⟨g, hg, rfl⟩ := hf
    exact ih g hg p hp
  induction form using Form.induction with
  | hand operands ih | hor operands ih => exact hall operands ih
  | hnot x ih | hisNull x ih | hisIn x source ih => exact ih
  | hcompare op l r hl hr | hmath op l r hl hr => exact List.forall_mem_append.2 ⟨hl, hr⟩
  | hconstant | hvariable | hfield => exact List.forall_mem_singleton.2 trivial
  | hcall module name arguments ih =>
    refine List.forall_mem_cons.2 ⟨List.length_take_le _ _, fun p hp => hall arguments ih p ?_⟩
    obtain ⟨f, hf, hp⟩ := mem_partsOfAll.1 hp
    exact mem_partsOfAll.2 ⟨f, List.mem_of_mem_take hf, hp⟩

/-- A notation is kept as it is when no call has more arguments than are looked at. -/
theorem kept_eq_self {form : Form} (h : ∀ p ∈ form.parts, p.IsNarrow) : form.kept = form := by
  have hall : ∀ forms : List Form, (∀ f ∈ forms, (∀ p ∈ f.parts, p.IsNarrow) → f.kept = f) →
      (∀ p ∈ partsOfAll forms, p.IsNarrow) → keptAll forms = forms := by
    intro forms ih h
    rw [keptAll_eq]
    refine (List.map_congr_left fun f hf => ?_).trans (List.map_id _)
    exact ih f hf fun p hp => h p (mem_partsOfAll.2 ⟨f, hf, hp⟩)
  induction form using Form.induction with
  | hand operands ih | hor operands ih => rw [kept, hall operands ih h]
  | hnot x ih | hisNull x ih | hisIn x source ih => rw [kept, ih h]
  | hcompare op l r hl hr | hmath op l r hl hr =>
    obtain ⟨hleft, hright⟩ := List.forall_mem_append.1 h
    rw [kept, hl hleft, hr hright]
  | hconstant | hvariable | hfield => rfl
  | hcall module name arguments ih =>
    obtain ⟨hwidth, harguments⟩ := List.forall_mem_cons.1 h
    rw [kept, hall arguments ih harguments, List.take_of_length_le hwidth]

/-- Leaves are only cut off. -/
theorem leaves_kept_sublist (form : Form) : form.kept.leaves.Sublist form.leaves := by
  have hall : ∀ forms : List Form, (∀ f ∈ forms, f.kept.leaves.Sublist f.leaves) →
      ((partsOfAll (keptAll forms)).filter Part.isLeaf).Sublist
        ((partsOfAll forms).filter Part.isLeaf) := by
    intro forms ih
    rw [partsOfAll_eq, partsOfAll_eq, keptAll_eq, List.flatMap_map, List.filter_flatMap,
      List.filter_flatMap]
    exact List.Sublist.flatMap_right forms ih
  induction form using Form.induction with
  | hand operands ih | hor operands ih => exact hall operands ih
  | hnot x ih | hisNull x ih | hisIn x source ih => exact ih
  | hcompare op l r hl hr | hmath op l r hl hr =>
    simp only [leaves, kept, parts, List.filter_append]
    exact hl.append hr
  | hconstant | hvariable | hfield => exact List.Sublist.refl _
  | hcall module name arguments ih =>
    have hcut : (partsOfAll ((keptAll arguments).take maxArguments)).Sublist
        (partsOfAll (keptAll arguments)) := by
      rw [partsOfAll_eq, partsOfAll_eq]
      exact (List.take_sublist _ _).flatMap _
    exact (hcut.filter _).trans (hall arguments ih)

end Form

/-! ## Parts of what is read -/

theorem Form.placeholderId_eq_ok {id id' : String} (h : Form.placeholderId id = .ok id') :
    id' = id := by
  rw [placeholderId] at h
  split at h
  · cases h
  · exact (Except.ok.inj h).symm

theorem parts_joinLeft {tag : String} {join : Expression → Expression → Expression}
    (hjoin : ∀ l r, (join l r).parts = l.parts ++ r.parts) {es : List Expression} {e : Expression}
    (h : Form.joinLeft tag join es = .ok e) : e.parts = partsOfAll es := by
  cases es with
  | nil => cases h
  | cons first others =>
    obtain rfl := Except.ok.inj h
    clear h
    induction others generalizing first with
    | nil => exact (List.append_nil _).symm
    | cons x others ih =>
      rw [List.foldl_cons, ih, partsOfAll, partsOfAll, partsOfAll, hjoin, List.append_assoc]

/-- The parts of an expression are those of what is kept of its notation. -/
theorem reads_of_toExpressionWithin {levels : Nat} {form : Form} {e : Expression}
    (h : form.toExpressionWithin levels = .ok e) :
    List.Forall₂ Part.Reads form.kept.parts e.parts := by
  induction levels generalizing form e with
  | zero => cases h
  | succ levels ih =>
    have hall : ∀ {forms : List Form} {es : List Expression},
        forms.mapM (Form.toExpressionWithin levels) = .ok es →
          List.Forall₂ Part.Reads (Form.partsOfAll (Form.keptAll forms)) (partsOfAll es) := by
      intro forms es hes
      rw [Form.keptAll_eq, Form.partsOfAll_eq, partsOfAll_eq, List.flatMap_map]
      exact List.rel_flatMap (forall₂_of_mapM hes) fun _ _ hread => ih hread
    cases form with
    | and operands | or operands =>
      obtain ⟨es, hes, h⟩ := bind_eq_ok_iff.1 h
      rw [parts_joinLeft (fun _ _ => rfl) h]
      exact hall hes
    | not x | isNull x | isIn x source =>
      obtain ⟨y, hy, h⟩ := bind_eq_ok_iff.1 h
      obtain rfl := Except.ok.inj h
      show List.Forall₂ Part.Reads x.kept.parts y.parts
      exact ih hy
    | compare op l r =>
      obtain ⟨l', hl, h⟩ := bind_eq_ok_iff.1 h
      obtain ⟨op', -, h⟩ := bind_eq_ok_iff.1 h
      obtain ⟨r', hr, h⟩ := bind_eq_ok_iff.1 h
      obtain rfl := Except.ok.inj h
      exact List.rel_append (ih hl) (ih hr)
    | constant value =>
      obtain ⟨v, hv, h⟩ := bind_eq_ok_iff.1 h
      obtain rfl := Except.ok.inj h
      exact .cons (.constant hv) .nil
    | «variable» id =>
      obtain ⟨id', hid, h⟩ := bind_eq_ok_iff.1 h
      obtain rfl := Except.ok.inj h
      obtain rfl := Form.placeholderId_eq_ok hid
      exact .cons (.variable id') .nil
    | field reference =>
      cases reference with
      | name name =>
        obtain rfl := Except.ok.inj h
        exact .cons (.field name) .nil
      | typed name type =>
        obtain ⟨type', -, h⟩ := bind_eq_ok_iff.1 h
        obtain rfl := Except.ok.inj h
        exact .cons (.field name) .nil
    | math op l r =>
      obtain ⟨op', -, h⟩ := bind_eq_ok_iff.1 h
      obtain ⟨l', hl, h⟩ := bind_eq_ok_iff.1 h
      obtain ⟨r', hr, h⟩ := bind_eq_ok_iff.1 h
      obtain rfl := Except.ok.inj h
      exact List.rel_append (ih hl) (ih hr)
    | call module name arguments =>
      obtain ⟨es, hes, h⟩ := bind_eq_ok_iff.1 h
      obtain rfl := Except.ok.inj h
      have hwidth : (Form.keptAll (arguments.take Form.maxArguments)).length = es.length := by
        rw [Form.keptAll_eq, List.length_map]
        exact (forall₂_of_mapM hes).length_eq
      rw [Form.kept, Form.take_keptAll, Form.parts, parts, hwidth]
      exact .cons (.call ..) (hall hes)

theorem forall_isNarrow_iff {ps : List (Part Json)} {qs : List (Part Value)}
    (h : List.Forall₂ Part.Reads ps qs) :
    (∀ p ∈ ps, p.IsNarrow) ↔ ∀ q ∈ qs, q.IsNarrow := by
  induction h with
  | nil => simp
  | cons hread _ ih =>
    rw [List.forall_mem_cons, List.forall_mem_cons, ih]
    cases hread <;> rfl

theorem Part.Reads.isLeaf_eq {p : Part Json} {q : Part Value} (h : p.Reads q) :
    p.isLeaf = q.isLeaf := by
  cases h <;> rfl

/-- An expression has the parts of what is kept of its notation.  So nothing is lost exactly when no
call has more arguments than are looked at, and no field, stream variable or constant is lost
exactly when what is cut off has none; faults in what is cut off are lost too. -/
theorem toExpression_parts (form : Form) :
    form.kept.toExpression = form.toExpression ∧
      ∀ e, form.toExpression = .ok e →
        List.Forall₂ Part.Reads form.kept.parts e.parts ∧
          (List.Forall₂ Part.Reads form.parts e.parts ↔ ∀ p ∈ form.parts, p.IsNarrow) ∧
          (List.Forall₂ Part.Reads form.leaves e.leaves ↔ form.kept.leaves = form.leaves) := by
  refine ⟨form.toExpression_kept, fun e h => ?_⟩
  have hparts := reads_of_toExpressionWithin h
  have hleaves : List.Forall₂ Part.Reads form.kept.leaves e.leaves :=
    List.rel_filter (fun _ _ hread => Bool.eq_iff_iff.1 hread.isLeaf_eq) hparts
  refine ⟨hparts, ⟨fun hall => ?_, fun hnarrow => ?_⟩, fun hall => ?_, fun hkept => ?_⟩
  · rw [forall_isNarrow_iff hall, ← forall_isNarrow_iff hparts]
    exact form.isNarrow_kept
  · rwa [Form.kept_eq_self hnarrow] at hparts
  · exact form.leaves_kept_sublist.eq_of_length (hleaves.length_eq.trans hall.length_eq.symm)
  · rwa [hkept] at hleaves

theorem toExpression_parts_limitAndCall :
    let form : Form := .and [.compare "lt" (.field (.name "age")) (.variable "limit"),
      .isNull (.call (some "str") "concat" [.field (.typed "name" none), .constant (.integer 7)])]
    let e : Expression := .and (.compare .less (.field "age" .string) (.variable "limit"))
      (.isNull (.call (some "str") "concat" [.field "name" .string, .constant (.int 7)]))
    form.toExpression = .ok e ∧ (∀ p ∈ form.parts, p.IsNarrow) ∧
      List.Forall₂ Part.Reads form.parts e.parts ∧
      List.Forall₂ Part.Reads form.leaves e.leaves := by
  intro form e
  have hread : form.toExpression = .ok e := by rfl
  have hnarrow : ∀ p ∈ form.parts, p.IsNarrow := by decide
  obtain ⟨-, hparts, hleaves⟩ := (toExpression_parts form).2 e hread
  exact ⟨hread, hnarrow, hparts.2 hnarrow, hleaves.2 (by rw [Form.kept_eq_self hnarrow])⟩

/-- A call with the numbers from 1 to 32 as its arguments, and one argument more. -/
def wideCall (last : Form) : Form :=
  .call none "f" ((List.range' 1 32).map (fun n => .constant (.integer n)) ++ [last])

/-- The last argument of a wide call is lost: a field, and also a stream variable that is refused
everywhere else. -/
theorem toExpression_wideCall :
    ∃ e, (wideCall (.field (.name "g"))).toExpression = .ok e ∧
      ¬List.Forall₂ Part.Reads (wideCall (.field (.name "g"))).leaves e.leaves ∧
      (wideCall (.variable "a]b")).toExpression = .ok e ∧
      (Form.variable "a]b").toExpression = .error (.compile (.placeholderId "a]b")) := by
  refine ⟨.call none "f" ((List.range' 1 32).map fun n => .constant (.int (.ofNat n))), by rfl,
    fun hleaves => ?_, by rfl, by rfl⟩
  exact absurd hleaves.length_eq (by decide)

end SearchTable.Expression
