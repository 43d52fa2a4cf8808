namespace SceneScript

structure Position where
  offset : Nat
  line : Nat
  column : Nat
  deriving DecidableEq, Repr, Inhabited

def Position.start : Position := ⟨0, 1, 1⟩

def Position.next (p : Position) (c : Char) : Position :=
  if c = '\n' then ⟨p.offset + c.utf8Size, p.line + 1, 1⟩
  else ⟨p.offset + c.utf8Size, p.line, p.column + 1⟩

def Position.after (p : Position) (text : List Char) : Position := text.foldl Position.next p

@[simp] theorem Position.after_nil (p : Position) : p.after [] = p := rfl

@[simp] theorem Position.after_cons (p : Position) (c : Char) (text : List Char) :
    p.after (c :: text) = (p.next c).after text := rfl

theorem Position.after_append (p : Position) (a b : List Char) :
    p.after (a ++ b) = (p.after a).after b := List.foldl_append ..

/-- First byte, byte after the last, and the line and column of the first character. -/
structure Span where
  start : Nat
  stop : Nat
  line : Nat
  column : Nat
  deriving DecidableEq, Repr, Inhabited

def Span.zero : Span := ⟨0, 0, 0, 0⟩

def Position.to (p q : Position) : Span := ⟨p.offset, q.offset, p.line, p.column⟩

def Span.join (a b : Span) : Span := ⟨a.start, b.stop, a.line, a.column⟩

end SceneScript
