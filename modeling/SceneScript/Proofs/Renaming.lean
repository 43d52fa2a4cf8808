import SceneScript.Proofs.Library.Outcome
import SceneScript.Run.Operate

namespace SceneScript

/-- Gives objects and modules of one store the identities of another. Those that are known keep
apart. -/
structure Renaming where
  object : ObjectId → ObjectId
  module : ModuleId → ModuleId
  knowsObject : ObjectId → Prop
  knowsModule : ModuleId → Prop
  object_inj : ∀ a b, knowsObject a → knowsObject b → object a = object b → a = b
  module_inj : ∀ a b, knowsModule a → knowsModule b → module a = module b → a = b

namespace Value

mutual
def rename (r : Renaming) : Value → Value
  | list items => list (renameAll r items)
  | object id => object (r.object id)
  | module id => module (r.module id)
  | other => other
def renameAll (r : Renaming) : List Value → List Value
  | [] => []
  | first :: more => rename r first :: renameAll r more
end

mutual
/-- All identities in the value are known, and no function in it draws random numbers. -/
def Known (r : Renaming) : Value → Prop
  | list items => AllKnown r items
  | object id => r.knowsObject id
  | module id => r.knowsModule id
  | native f => f.function.isRandom = false
  | _ => True
def AllKnown (r : Renaming) : List Value → Prop
  | [] => True
  | first :: more => Known r first ∧ AllKnown r more
end

def Inert (value : Value) : Prop := ∀ r, value.rename r = value ∧ value.Known r

variable {r : Renaming} {value : Value}

theorem renameAll_eq_map (r : Renaming) (items : List Value) :
    renameAll r items = items.map (rename r) := by
  induction items with
  | nil => rfl
  | cons first more ih => rw [renameAll, ih, List.map_cons]

theorem allKnown_iff {items : List Value} : AllKnown r items ↔ ∀ v ∈ items, v.Known r := by
  induction items with
  | nil => simp [AllKnown]
  | cons first more ih => simp [AllKnown, ih]

@[simp] theorem length_renameAll (r : Renaming) (items : List Value) :
    (renameAll r items).length = items.length := by
  rw [renameAll_eq_map, List.length_map]

/-! ### What a value shows -/

@[simp] theorem type_rename (r : Renaming) (value : Value) :
    (value.rename r).type = value.type := by
  cases value <;> rfl

@[simp] theorem isTrue_rename (r : Renaming) (value : Value) :
    (value.rename r).isTrue = value.isTrue := by
  cases value <;> rfl

@[simp] theorem number?_rename (r : Renaming) (value : Value) :
    (value.rename r).number? = value.number? := by
  cases value <;> rfl

@[simp] theorem vector?_rename (r : Renaming) (value : Value) :
    (value.rename r).vector? = value.vector? := by
  cases value with
  | list items =>
    rcases items with _ | ⟨a, _ | ⟨b, _ | ⟨c, _ | ⟨d, more⟩⟩⟩⟩ <;>
      simp [rename, renameAll, vector?]
  | _ => rfl

@[simp] theorem object?_rename (r : Renaming) (value : Value) :
    (value.rename r).object? = value.object?.map r.object := by
  cases value <;> rfl

@[simp] theorem material?_rename (r : Renaming) (value : Value) :
    (value.rename r).material? = value.material? := by
  cases value <;> rfl

theorem knowsObject_of_object? (h : value.Known r) {id : ObjectId} (hid : value.object? = some id) :
    r.knowsObject id := by
  cases value <;> cases hid
  exact h

mutual
theorem display_rename {objectName objectName' : ObjectId → String}
    (hname : ∀ id, r.knowsObject id → objectName' (r.object id) = objectName id) :
    ∀ value : Value, value.Known r →
      (value.rename r).display objectName' = value.display objectName
  | list [], _ => rfl
  | list (first :: more), h => by
    rw [rename, renameAll, display, display, display_rename hname first h.1,
      displayMore_rename hname more h.2]
  | object id, h => hname id h
  | number _, _ => rfl
  | string _, _ => rfl
  | bool _, _ => rfl
  | nil, _ => rfl
  | vector _, _ => rfl
  | material _, _ => rfl
  | module _, _ => rfl
  | native _, _ => rfl
theorem displayMore_rename {objectName objectName' : ObjectId → String}
    (hname : ∀ id, r.knowsObject id → objectName' (r.object id) = objectName id) :
    ∀ items : List Value, AllKnown r items →
      displayMore objectName' (renameAll r items) = displayMore objectName items
  | [], _ => rfl
  | first :: more, h => by
    rw [renameAll, displayMore, displayMore, display_rename hname first h.1,
      displayMore_rename hname more h.2]
end

mutual
theorem equals_rename : ∀ v w : Value, v.Known r → w.Known r →
    (v.rename r).equals (w.rename r) = v.equals w
  | list items, w, hv, hw => by
    cases w with
    | list others => exact equalLists_rename items others hv hw
    | _ => rfl
  | object a, w, hv, hw => by
    cases w with
    | object b =>
      have hiff : r.object a = r.object b ↔ a = b :=
        ⟨r.object_inj a b hv hw, fun heq => congrArg r.object heq⟩
      simp only [rename, equals, Bool.beq_eq_decide_eq, hiff]
    | _ => rfl
  | module a, w, hv, hw => by
    cases w with
    | module b =>
      have hiff : r.module a = r.module b ↔ a = b :=
        ⟨r.module_inj a b hv hw, fun heq => congrArg r.module heq⟩
      simp only [rename, equals, Bool.beq_eq_decide_eq, hiff]
    | _ => rfl
  | number _, w, _, _ => by cases w <;> rfl
  | string _, w, _, _ => by cases w <;> rfl
  | bool _, w, _, _ => by cases w <;> rfl
  | nil, w, _, _ => by cases w <;> rfl
  | vector _, w, _, _ => by cases w <;> rfl
  | material _, w, _, _ => by cases w <;> rfl
  | native _, w, _, _ => by cases w <;> rfl
theorem equalLists_rename : ∀ vs ws : List Value, AllKnown r vs → AllKnown r ws →
    equalLists (renameAll r vs) (renameAll r ws) = equalLists vs ws
  | [], ws, _, _ => by cases ws <;> rfl
  | v :: vs, ws, hv, hw => by
    cases ws with
    | nil => rfl
    | cons w ws =>
      rw [renameAll, renameAll, equalLists, equalLists, equals_rename v w hv.1 hw.1,
        equalLists_rename vs ws hv.2 hw.2]
end

/-! ### Values without identities -/

theorem inert_number (x : Float) : (number x).Inert := fun _ => ⟨rfl, trivial⟩

theorem inert_string (text : String) : (string text).Inert := fun _ => ⟨rfl, trivial⟩

theorem inert_bool (b : Bool) : (bool b).Inert := fun _ => ⟨rfl, trivial⟩

theorem inert_nil : nil.Inert := fun _ => ⟨rfl, trivial⟩

theorem inert_vector (v : Vector3) : (vector v).Inert := fun _ => ⟨rfl, trivial⟩

theorem inert_material (m : Material) : (material m).Inert := fun _ => ⟨rfl, trivial⟩

theorem inert_strings (texts : List String) : (list (texts.map string)).Inert := by
  intro r
  have hall : renameAll r (texts.map string) = texts.map string := by
    rw [renameAll_eq_map, List.map_map]
    rfl
  refine ⟨congrArg list hall, allKnown_iff.2 fun v hv => ?_⟩
  obtain ⟨text, -, rfl⟩ := List.mem_map.1 hv
  trivial

theorem inert_ofName? (name : Option String) : (ofName? name).Inert := by
  cases name with
  | none => exact inert_nil
  | some text => exact inert_string text

theorem inert_of_isNumeric (h : value.isNumeric = true) : value.Inert := by
  cases value <;> first | exact fun _ => ⟨rfl, trivial⟩ | cases h

/-- A value without identities is no object, as there are renamings that know of none. -/
theorem Inert.object?_eq_none (h : value.Inert) : value.object? = none := by
  have hknown := (h ⟨id, id, fun _ => False, fun _ => False, fun _ _ ha _ _ => ha.elim,
    fun _ _ ha _ _ => ha.elim⟩).2
  cases value <;> first | rfl | exact hknown.elim

/-! ### Conversions and operators -/

theorem inert_of_convert? {name : String} {display : Value → String} {converted : Value}
    (h : value.convert? name display = some (.ok converted)) : converted.Inert := by
  unfold convert? at h
  split at h
  · cases hx : value.toNumber <;> simp [hx, Except.map] at h
    subst h
    exact inert_number _
  · cases hx : value.toNumber <;> simp [hx, Except.map] at h
    subst h
    exact inert_number _
  · cases h
    exact inert_string _
  · cases h
    exact inert_bool _
  · cases h

theorem toNumber_rename (r : Renaming) (value : Value) :
    (value.rename r).toNumber = value.toNumber := by
  cases value <;> rfl

theorem convert?_rename {display display' : Value → String} (name : String)
    (h : display' (value.rename r) = display value) :
    (value.rename r).convert? name display' = value.convert? name display := by
  unfold convert?
  rw [toNumber_rename, isTrue_rename, h]

end Value

namespace BinaryOp

theorem inert_of_apply {op : BinaryOp} {display : Value → String} {left right value : Value}
    (h : op.apply display left right = .ok value) : value.Inert := by
  unfold apply at h
  split at h
  · cases h
    exact Value.inert_bool _
  · cases h
    exact Value.inert_bool _
  · split at h
    · unfold onNumbers at h
      grind [Value.inert_number, Value.inert_bool]
    · unfold onOthers at h
      grind [Value.inert_string, Value.inert_vector]

/-- Operands are refused by their types, and what is not refused has no identities: a string joins
to the text of anything. -/
theorem onOthers_rename {r : Renaming} {display display' : Value → String} (op : BinaryOp)
    {left right : Value} (hleft : display' (left.rename r) = display left)
    (hright : display' (right.rename r) = display right) :
    op.onOthers display' (left.rename r) (right.rename r) = op.onOthers display left right := by
  have hrefuse : ∀ wanted : String, (Except.error (.typeMismatch wanted
      s!"{(left.rename r).type} and {(right.rename r).type}") : Except Cause Value) =
        .error (.typeMismatch wanted s!"{left.type} and {right.type}") := by
    intro wanted
    rw [Value.type_rename, Value.type_rename]
  have hjoin : (Except.ok (.string (display' (left.rename r) ++ display' (right.rename r))) :
      Except Cause Value) = .ok (.string (display left ++ display right)) := by rw [hleft, hright]
  -- Only what numbers, vectors and strings come to is computed, and they are their own images.
  cases op with
  | add =>
    cases left with
    | string text => exact hjoin
    | vector v => cases right <;> first | rfl | exact hjoin
    | _ => cases right <;> first | exact hrefuse _ | exact hjoin
  | sub =>
    cases left with
    | vector v => cases right <;> rfl
    | _ => exact hrefuse _
  | mul =>
    cases left with
    | vector v => cases right <;> rfl
    | number x => cases right <;> rfl
    | _ => exact hrefuse _
  | div =>
    cases left with
    | vector v => cases right <;> rfl
    | _ => exact hrefuse _
  | _ => exact hrefuse _

theorem apply_rename {r : Renaming} {display display' : Value → String} (op : BinaryOp)
    {left right : Value} (hl : left.Known r) (hr : right.Known r)
    (hleft : display' (left.rename r) = display left)
    (hright : display' (right.rename r) = display right) :
    op.apply display' (left.rename r) (right.rename r) = op.apply display left right := by
  have hequals := Value.equals_rename left right hl hr
  have hothers := onOthers_rename op hleft hright
  cases op with
  | eq => rw [apply, hequals, apply]
  | ne => rw [apply, hequals, apply]
  | _ =>
    cases left with
    | number x => cases right <;> first | rfl | exact hothers
    | _ => exact hothers

end BinaryOp

/-! ### Members -/

theorem Object.inert_of_member? {o : Object} {name : String} {found : Value}
    (h : o.member? name = some found) : found.Inert := by
  unfold Object.member? at h
  grind [Value.inert_string, Value.inert_number, Value.inert_vector, Value.inert_nil,
    Value.inert_material, Value.inert_strings, Value.inert_ofName?]

theorem Vector3.inert_of_member? {v : Vector3} {name : String} {found : Value}
    (h : v.member? name = some found) : found.Inert := by
  unfold Vector3.member? at h
  grind [Value.inert_number]

theorem Material.inert_of_member? {m : Material} {name : String} {found : Value}
    (h : m.member? name = some found) : found.Inert := by
  unfold Material.member? at h
  grind [Value.inert_string, Value.inert_number, Value.inert_bool, Value.inert_ofName?]

/-! ### Library functions -/

namespace Builtin
variable (r : Renaming)

theorem number_rename (function : String) (value : Value) :
    number function (value.rename r) = number function value := by
  rw [number, number, Value.number?_rename, Value.type_rename]

theorem vector3_rename (function : String) (value : Value) :
    vector3 function (value.rename r) = vector3 function value := by
  rw [vector3, vector3, Value.vector?_rename, Value.type_rename]

theorem callVector_rename (f : VectorFunction) (args : List Value) :
    callVector f (Value.renameAll r args) = callVector f args := by
  rcases args with _ | ⟨a, _ | ⟨b, _ | ⟨c, _ | ⟨d, more⟩⟩⟩⟩ <;> cases f <;>
    simp only [Value.renameAll, callVector, number_rename, vector3_rename, List.length_cons,
      List.length_nil, Value.length_renameAll]

/-- Functions that draw no random numbers only look at numbers and vectors. -/
theorem callFixed_rename (f : Builtin) (args : List Value) :
    callFixed f (Value.renameAll r args) = callFixed f args := by
  cases f with
  | vector f => exact callVector_rename r f args
  | _ =>
    rcases args with _ | ⟨a, _ | ⟨b, _ | ⟨c, _ | ⟨d, more⟩⟩⟩⟩ <;>
      simp only [Value.renameAll, callFixed, number_rename, List.length_cons, List.length_nil,
        Value.length_renameAll]

end Builtin

/-- A call that draws no random number leaves the store alone. -/
theorem Store.call_of_isRandom_eq_false {f : Native} (h : f.function.isRandom = false) (s : Store)
    (args : List Value) : s.call f args = (f.function.callFixed args).map (·, s) := by
  -- A call puts its generator back, which here is the one it took.
  have hgenerators : s.generators.setIfInBounds f.library.index
      (s.generators[f.library.index]?.getD (.ofSeed 0)) = s.generators := by
    apply Array.ext_getElem?
    intro i
    rw [Array.getElem?_setIfInBounds]
    split
    next heq =>
      subst heq
      split
      next hlt => simp [hlt]
      next hge => simp [hge]
    next => rfl
  have hcall : ∀ g, f.function.call args g = (f.function.callFixed args).map (·, g) := by
    intro g
    cases hfunction : f.function with
    | random function =>
      rw [hfunction] at h
      cases h
    | _ => rfl
  unfold Store.call
  dsimp only
  rw [hcall]
  cases f.function.callFixed args with
  | error failure => rfl
  | ok value =>
    show Except.ok (value, { s with generators := _ }) = _
    rw [hgenerators]
    rfl

/-! ### Properties -/

namespace Properties
variable (r : Renaming)

def rename (props : Properties) : Properties := props.map fun entry => (entry.1, entry.2.rename r)

def Known (props : Properties) : Prop := ∀ entry ∈ props, entry.2.Known r

theorem get?_rename (props : Properties) (name : String) :
    (props.rename r).get? name = (props.get? name).map (Value.rename r) := by
  rw [get?, get?, rename, List.find?_map, Option.map_map, Option.map_map]
  rfl

@[simp] theorem number_rename (expected : String) (value : Value) :
    number expected (value.rename r) = number expected value := by
  rw [number, number, Value.number?_rename, mismatch, mismatch, Value.type_rename]

@[simp] theorem vector_rename (expected : String) (value : Value) :
    vector expected (value.rename r) = vector expected value := by
  rw [vector, vector, Value.vector?_rename, mismatch, mismatch, Value.type_rename]

@[simp] theorem axis_rename (value : Value) : axis (value.rename r) = axis value := by
  cases value <;> rfl

@[simp] theorem direction_rename (value : Value) :
    direction (value.rename r) = direction value := by
  cases value <;> rfl

@[simp] theorem turn_rename (axisValue angle : Value) :
    turn (axisValue.rename r) (angle.rename r) = turn axisValue angle := by
  rw [turn, turn, axis_rename, number_rename]

theorem turns_rename (axes angles : Value) :
    turns (axes.rename r) (angles.rename r) = turns axes angles := by
  cases axes with
  | list axes =>
    cases angles with
    | list angles =>
      have hzip : (Value.renameAll r axes).zip (Value.renameAll r angles) =
          (axes.zip angles).map (Prod.map (Value.rename r) (Value.rename r)) := by
        rw [Value.renameAll_eq_map, Value.renameAll_eq_map, List.zip_map]
      have hpair : (fun pair : Value × Value => turn pair.1 pair.2) ∘
          Prod.map (Value.rename r) (Value.rename r) = fun pair => turn pair.1 pair.2 := by
        funext pair
        exact turn_rename r pair.1 pair.2
      simp only [Value.rename, turns, Value.length_renameAll, hzip, List.mapM_map, hpair]
    | _ => rfl
  | _ =>
    exact congrArg (fun found : Except Cause (Axis × Float) => do return [← found])
      (turn_rename r _ angles)

theorem required_rename (props : Properties) (name : String) :
    required (props.rename r) name = (required props name).map (Value.rename r) := by
  rw [required, required, get?_rename]
  cases props.get? name <;> rfl

theorem pyramid_rename (props : Properties) : pyramid (props.rename r) = pyramid props := by
  rw [pyramid, pyramid, get?_rename, get?_rename]
  cases props.get? "height" <;> cases props.get? "direction" <;> simp

theorem scale_rename (props : Properties) : scale (props.rename r) = scale props := by
  rw [scale, scale, required_rename]
  cases required props "factor" with
  | error cause => rfl
  | ok value =>
    cases value with
    | list items =>
      exact congrArg (fun found : Except Cause Vector3 => do return Modifier.scale (← found))
        (vector_rename r "x, y, z for 'factor'" (.list items))
    | _ => rfl

theorem translate_rename (props : Properties) : translate (props.rename r) = translate props := by
  rw [translate, translate, required_rename]
  cases required props "offset" with
  | error cause => rfl
  | ok value =>
    exact congrArg (fun found : Except Cause Vector3 => do return Modifier.translate (← found))
      (vector_rename r _ value)

theorem rotate_rename (props : Properties) : rotate (props.rename r) = rotate props := by
  have haxis : ((props.get? "axis").map (Value.rename r)).getD (.string "y") =
      ((props.get? "axis").getD (.string "y")).rename r := by
    cases props.get? "axis" <;> rfl
  rw [rotate, rotate, required_rename, get?_rename, haxis]
  cases required props "angle" with
  | error cause => rfl
  | ok value =>
    exact congrArg (fun found : Except Cause (List (Axis × Float)) => do
      return Modifier.rotate (← found)) (turns_rename r _ value)

end Properties

theorem Modifier.ofProperties_rename (r : Renaming) (kind : String) (props : Properties) :
    ofProperties kind (props.rename r) = ofProperties kind props := by
  have hfind : ∀ accepted : List String, (props.rename r).find? (!accepted.contains ·.1) =
      (props.find? (!accepted.contains ·.1)).map fun entry => (entry.1, entry.2.rename r) := by
    intro accepted
    rw [Properties.rename, List.find?_map]
    rfl
  unfold ofProperties
  cases properties? kind with
  | none => rfl
  | some accepted =>
    dsimp only
    rw [hfind, Properties.pyramid_rename, Properties.scale_rename, Properties.translate_rename,
      Properties.rotate_rename]
    cases props.find? (!accepted.contains ·.1) <;> rfl

theorem colorOfValue_rename (r : Renaming) (value : Value) :
    colorOfValue (value.rename r) = colorOfValue value := by
  cases value with
  | list items =>
    have hvector := Properties.vector_rename r "colour" (.list items)
    simp only [Value.rename] at hvector
    simp only [Value.rename, colorOfValue, hvector]
  | _ => rfl

theorem Material.set_rename (r : Renaming) (m : Material) (name : String) (value : Value) :
    m.set name (value.rename r) = m.set name value := by
  simp only [set, colorOfValue_rename, Properties.number_rename, Value.isTrue_rename]

theorem Material.ofProperties_rename (r : Renaming) (props : Properties) :
    ofProperties (props.rename r) = ofProperties props := by
  rw [ofProperties, ofProperties, Properties.rename, List.foldlM_map]
  simp only [set_rename]

end SceneScript
