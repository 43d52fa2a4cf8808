import SceneScript.Program.Basic

namespace SceneScript

def Token.ofKind (kind : TokenKind) : Token := ⟨kind, .zero, kind.describe⟩

mutual
def Expr.unplaced : Expr → Expr
  | .number _ x => .number .zero x
  | .string _ text => .string .zero text
  | .reference _ name members => .reference .zero name members
  | .binary _ op left right => .binary .zero op left.unplaced right.unplaced
  | .call _ receiver callee args => .call .zero receiver callee (unplacedAll args)
  | .cube _ vertices => .cube .zero vertices
  | .mesh _ vertices faces => .mesh .zero vertices faces
  | .material _ properties => .material .zero (unplacedProperties properties)
  | .modifier _ kind properties => .modifier .zero kind (unplacedProperties properties)
  | .group _ children => .group .zero children
def Expr.unplacedAll : List Expr → List Expr
  | [] => []
  | first :: more => first.unplaced :: unplacedAll more
def Expr.unplacedProperty : Property Expr → Property Expr
  | .single key value => .single key value.unplaced
  | .list key values => .list key (unplacedAll values)
def Expr.unplacedProperties : List (Property Expr) → List (Property Expr)
  | [] => []
  | first :: more => unplacedProperty first :: unplacedProperties more
end

theorem Expr.unplacedAll_eq_map (es : List Expr) : unplacedAll es = es.map unplaced := by
  induction es with
  | nil => rfl
  | cons first more ih => rw [unplacedAll, ih, List.map_cons]

def Triple.unplaced (t : Triple) : Triple := ⟨t.x.unplaced, t.y.unplaced, t.z.unplaced⟩

def AssignedValue.unplaced : AssignedValue → AssignedValue
  | expr value => expr value.unplaced
  | triple coords => triple coords.unplaced
  | relative anchor offset => relative anchor (offset.map Triple.unplaced)

mutual
def Stmt.unplaced : Stmt → Stmt
  | .imports declaration => .imports { declaration with span := .zero }
  | .assign _ name confined value => .assign .zero name confined value.unplaced
  | .setProperty _ target child property value =>
    .setProperty .zero target child property value.unplaced
  | .callMethod _ target method args excluded =>
    .callMethod .zero target method (Expr.unplacedAll args) excluded
  | .print _ value => .print .zero value.unplaced
  | .branch _ condition thenBlock elseBlock =>
    .branch .zero condition.unplaced (unplacedAll thenBlock) (unplacedElse elseBlock)
  | .whileLoop _ condition body => .whileLoop .zero condition.unplaced (unplacedAll body)
  | .forLoop _ counter start stop step body =>
    .forLoop .zero counter start.unplaced stop.unplaced (step.map Expr.unplaced) (unplacedAll body)
def Stmt.unplacedAll : List Stmt → List Stmt
  | [] => []
  | first :: more => first.unplaced :: unplacedAll more
def Stmt.unplacedElse : Option (List Stmt) → Option (List Stmt)
  | none => none
  | some block => some (unplacedAll block)
end

theorem Stmt.unplacedAll_eq_map (block : List Stmt) : unplacedAll block = block.map unplaced := by
  induction block with
  | nil => rfl
  | cons first more ih => rw [unplacedAll, ih, List.map_cons]

def Program.unplaced (p : Program) : Program := ⟨p.statements.map Stmt.unplaced⟩

end SceneScript
