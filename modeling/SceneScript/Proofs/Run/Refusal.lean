import SceneScript.Notice
import SceneScript.Run.Operate
import SceneScript.Scene.Cube

namespace SceneScript

def Cause.isOfImport : Cause → Bool
  | moduleNotFound _ => true
  | importCycle _ => true
  | fetchFailed .. => true
  | _ => false

def Cause.isOfRun (c : Cause) : Bool := !c.isSyntax && !c.isOfImport

/-- Whether the cause is that of a loop that goes on for too long, which is no fault. -/
def Cause.isLimit : Cause → Bool
  | iterationLimit _ => true
  | _ => false

def Cause.failsStatement (c : Cause) : Bool := c.isOfRun && !c.isLimit

section
variable {c : Cause}

theorem Cause.isOfRun_of_failsStatement (h : c.failsStatement = true) : c.isOfRun = true :=
  (Bool.and_eq_true_iff.1 h).1

theorem Cause.not_isLimit_of_failsStatement (h : c.failsStatement = true) : (!c.isLimit) = true :=
  (Bool.and_eq_true_iff.1 h).2

theorem Cause.isSyntax_of_isOfRun (h : c.isOfRun = true) : c.isSyntax = false := by
  simpa using (Bool.and_eq_true_iff.1 h).1

end

def Notice.isOfRun : Notice → Bool
  | error d => d.cause.isOfRun
  | warning .. => true
  | missingModule .. => false
  | forwarded .. => false

def RefusesInRun {α : Type} (e : Except Cause α) : Prop :=
  ∀ cause, e = .error cause → cause.failsStatement = true

section Laws
variable {α β : Type} {e : Except Cause α} {f : α → Except Cause β}

theorem RefusesInRun.ok (a : α) : RefusesInRun (.ok a) := fun _ h => nomatch h

theorem RefusesInRun.error {cause : Cause} (h : cause.failsStatement = true) :
    RefusesInRun (.error cause : Except Cause α) := by
  intro other heq
  cases heq
  exact h

theorem RefusesInRun.bind (he : RefusesInRun e) (hf : ∀ a, RefusesInRun (f a)) :
    RefusesInRun (e >>= f) := by
  cases e with
  | error cause => exact .error (he cause rfl)
  | ok a => exact hf a

theorem RefusesInRun.map (g : α → β) (he : RefusesInRun e) : RefusesInRun (e.map g) := by
  cases e with
  | error cause => exact .error (he cause rfl)
  | ok a => exact .ok (g a)

theorem RefusesInRun.ite {c : Prop} [Decidable c] {e' : Except Cause α} (he : RefusesInRun e)
    (he' : RefusesInRun e') : RefusesInRun (if c then e else e') := by
  split
  · exact he
  · exact he'

theorem RefusesInRun.mapM (hf : ∀ a, RefusesInRun (f a)) (items : List α) :
    RefusesInRun (items.mapM f) := by
  induction items with
  | nil => exact .ok []
  | cons first more ih =>
    rw [List.mapM_cons]
    exact (hf first).bind fun _ => ih.bind fun _ => .ok _

theorem RefusesInRun.foldlM {g : β → α → Except Cause β} (hg : ∀ b a, RefusesInRun (g b a))
    (items : List α) (start : β) : RefusesInRun (items.foldlM g start) := by
  induction items generalizing start with
  | nil => exact .ok start
  | cons first more ih =>
    rw [List.foldlM_cons]
    exact (hg start first).bind ih

end Laws

section Operations
variable (value : Value)

theorem BinaryOp.refuses_onNumbers (op : BinaryOp) (x y : Float) :
    RefusesInRun (op.onNumbers x y) := by
  cases op with
  | div => exact .ite (.error rfl) (.ok _)
  | mod => exact .ite (.error rfl) (.ok _)
  | _ => exact .ok _

theorem BinaryOp.refuses_onOthers (op : BinaryOp) (display : Value → String) (left right : Value) :
    RefusesInRun (op.onOthers display left right) := by
  unfold onOthers
  dsimp only
  split
  · exact .ok _
  · exact .ok _
  · exact .ok _
  · exact .ok _
  · exact .ok _
  · exact .ok _
  · exact .ite (.error rfl) (.ok _)
  · exact .error rfl

theorem BinaryOp.refuses_apply (op : BinaryOp) (display : Value → String) (left right : Value) :
    RefusesInRun (op.apply display left right) := by
  unfold apply
  split
  · exact .ok _
  · exact .ok _
  · split
    · exact refuses_onNumbers op _ _
    · exact refuses_onOthers op display _ _

theorem Value.refuses_toNumber : RefusesInRun value.toNumber := by
  unfold toNumber
  split
  · exact .ok _
  · exact .ok _
  · split
    · exact .ok _
    · exact .error rfl
  · exact .error rfl

theorem Value.refuses_convert? {name : String} {display : Value → String}
    {converted : Except Cause Value} (h : value.convert? name display = some converted) :
    RefusesInRun converted := by
  unfold convert? at h
  split at h <;> cases h
  · exact value.refuses_toNumber.map _
  · exact value.refuses_toNumber.map _
  · exact .ok _
  · exact .ok _

theorem Vector3.refuses_ofText (text : String) : RefusesInRun (ofText text) := by
  unfold ofText
  split
  · exact .ok _
  · exact .error rfl

theorem Shape.refuses_cube (texts : List String) : RefusesInRun (cube texts) :=
  .ite (.bind (.mapM Vector3.refuses_ofText texts) fun _ => .ok _) (.error rfl)

theorem Modifier.refuses_apply (m : Modifier) (o : Object) : RefusesInRun (m.apply o) := by
  cases m with
  | pyramid height direction => exact .ite (.error rfl) (.ok _)
  | _ => exact .ok _

namespace Properties
variable (props : Properties)

theorem refuses_number (expected : String) : RefusesInRun (number expected value) := by
  unfold number
  split
  · exact .ok _
  · exact .error rfl

theorem refuses_vector (expected : String) : RefusesInRun (vector expected value) := by
  unfold vector
  split
  · exact .ok _
  · exact .error rfl

theorem refuses_axis : RefusesInRun (axis value) := by
  unfold axis
  split
  · split
    · exact .ok _
    · exact .error rfl
  · exact .error rfl

theorem refuses_direction : RefusesInRun (direction value) := by
  unfold direction
  split
  · exact .ite (.ok _) (.ite (.ok _) (.error rfl))
  · exact .error rfl

theorem refuses_turn (axisValue angle : Value) : RefusesInRun (turn axisValue angle) :=
  (refuses_axis axisValue).bind fun _ => (refuses_number angle _).bind fun _ => .ok _

theorem refuses_turns (axes angles : Value) : RefusesInRun (turns axes angles) := by
  unfold turns
  split
  · exact .ite (.mapM (fun _ => refuses_turn _ _) _) (.error rfl)
  · exact .error rfl
  · exact (refuses_turn _ _).bind fun _ => .ok _

theorem refuses_required (name : String) : RefusesInRun (required props name) := by
  unfold required
  split
  · exact .ok _
  · exact .error rfl

theorem refuses_pyramid : RefusesInRun props.pyramid := by
  unfold pyramid
  cases props.get? "height" with
  | some height =>
    refine (refuses_number height _).bind fun _ => ?_
    cases props.get? "direction" with
    | some facing => exact (refuses_direction facing).bind fun _ => .ok _
    | none => exact .ok _
  | none =>
    cases props.get? "direction" with
    | some facing => exact (refuses_direction facing).bind fun _ => .ok _
    | none => exact .ok _

theorem refuses_scale : RefusesInRun props.scale := by
  refine (refuses_required props _).bind fun value => ?_
  split
  · exact .ok _
  · exact (refuses_vector _ _).bind fun _ => .ok _

theorem refuses_translate : RefusesInRun props.translate :=
  (refuses_required props _).bind fun value => (refuses_vector value _).bind fun _ => .ok _

theorem refuses_rotate : RefusesInRun props.rotate :=
  (refuses_required props _).bind fun angles => (refuses_turns _ angles).bind fun _ => .ok _

end Properties

theorem Modifier.refuses_ofProperties (kind : String) (props : Properties) :
    RefusesInRun (ofProperties kind props) := by
  unfold ofProperties
  split
  · exact .error rfl
  · split
    · exact .error rfl
    · split
      · exact props.refuses_pyramid
      · exact props.refuses_scale
      · exact props.refuses_translate
      · exact props.refuses_rotate

theorem refuses_colorOfValue : RefusesInRun (colorOfValue value) := by
  unfold colorOfValue
  split
  · exact .ok _
  · exact (Properties.refuses_vector _ _).bind fun _ => .ok _

theorem Material.refuses_set (m : Material) (name : String) : RefusesInRun (m.set name value) := by
  unfold set
  split
  · exact (refuses_colorOfValue value).bind fun _ => .ok _
  · exact (refuses_colorOfValue value).bind fun _ => .ok _
  · exact (Properties.refuses_number value _).bind fun _ => .ok _
  · exact (Properties.refuses_number value _).bind fun _ => .ok _
  · exact (Properties.refuses_number value _).bind fun _ => .ok _
  · exact .ok _
  · exact .error rfl

theorem Material.refuses_ofProperties (props : Properties) : RefusesInRun (ofProperties props) :=
  .foldlM (fun m entry => m.refuses_set entry.2 entry.1) props _

end Operations

end SceneScript
