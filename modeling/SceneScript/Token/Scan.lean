import SceneScript.Text.Blank
import SceneScript.Number.Reader
import SceneScript.Token.Basic

namespace SceneScript.Token

def beginsName (c : Char) : Bool := c.isAlpha || c = '_' || c = '@'

def continuesName (c : Char) : Bool := c.isAlphanum || c = '_'

def single? : Char → Option Symbol
  | '(' => some .leftParen
  | ')' => some .rightParen
  | '\x7b' => some .leftBrace
  | '\x7d' => some .rightBrace
  | '[' => some .leftBracket
  | ']' => some .rightBracket
  | ',' => some .comma
  | ';' => some .semicolon
  | ':' => some .colon
  | '.' => some .dot
  | '+' => some .plus
  | '-' => some .minus
  | '*' => some .star
  | '/' => some .slash
  | '%' => some .percent
  | _ => none

/-- The operators that an equality sign makes another one of: alone, and with the sign. -/
def paired? : Char → Option (Symbol × Symbol)
  | '=' => some (.equal, .equalEqual)
  | '!' => some (.bang, .bangEqual)
  | '<' => some (.less, .lessEqual)
  | '>' => some (.greater, .greaterEqual)
  | _ => none

/-- The rest of a string after its opening quote, with the closing quote if there is one. -/
def stringTail (rest : List Char) : List Char :=
  rest.takeWhile (· ≠ '"') ++ (rest.dropWhile (· ≠ '"')).take 1

/-- The rest of a number after its first digit: digits, and a point if a digit follows it. -/
def numberTail (rest : List Char) : List Char :=
  let whole := rest.takeWhile Char.isDigit
  match rest.dropWhile Char.isDigit with
  | '.' :: d :: more => if d.isDigit then whole ++
    '.' :: d :: more.takeWhile Char.isDigit else whole
  | _ => whole

def commentTail (rest : List Char) : List Char := rest.takeWhile (· ≠ '\n')

def wordKind (text : List Char) : TokenKind :=
  match Keyword.ofText? (String.ofList text) with
  | some word => .keyword word
  | none => .ident (String.ofList text)

def numberKind (text : List Char) : TokenKind := .number ((Number.read? text).getD 0)

/-- The piece that begins with `c`: what token it is, if any, and its characters after `c`. -/
def munch (c : Char) (rest : List Char) : Option TokenKind × List Char :=
  if Text.isBlank c then (none, [])
  else if c = '#' ∨ (c = '/' ∧ rest.head? = some '/') then (none, commentTail rest)
  else if c = '"' then
    (some (.string (String.ofList (rest.takeWhile (· ≠ '"')))), stringTail rest)
  else if c.isDigit then (some (numberKind (c :: numberTail rest)), numberTail rest)
  else if beginsName c then
    (some (wordKind (c :: rest.takeWhile continuesName)), rest.takeWhile continuesName)
  else match single? c, paired? c with
    | some sign, _ => (some (.symbol sign), [])
    | none, some (alone, withEqual) =>
      if rest.head? = some '=' then (some (.symbol withEqual),
        ['=']) else (some (.symbol alone), [])
    | none, none => (none, [])

theorem take_one_of_head? {rest : List Char} {c : Char} (h : rest.head? = some c) :
    [c] <+: rest := by
  cases rest with
  | nil => simp at h
  | cons d rest => simp at h; simp [h]

theorem stringTail_begins (rest : List Char) : stringTail rest <+: rest := by
  have := List.takeWhile_append_dropWhile (p := (· ≠ '"')) (l := rest)
  rw [stringTail]
  conv => rhs; rw [← this]
  exact (List.prefix_append_right_inj _).2 (List.take_prefix ..)

theorem numberTail_begins (rest : List Char) : numberTail rest <+: rest := by
  have hsplit := List.takeWhile_append_dropWhile (p := Char.isDigit) (l := rest)
  rw [numberTail]
  conv => rhs; rw [← hsplit]
  split
  next d more heq =>
    rw [heq]
    split
    · simp [List.takeWhile_prefix]
    · exact List.prefix_append ..
  next => exact List.prefix_append ..

theorem munch_begins (c : Char) (rest : List Char) : (munch c rest).2 <+: rest := by
  rw [munch]
  split
  · exact List.nil_prefix
  split
  · exact List.takeWhile_prefix _
  split
  · exact stringTail_begins rest
  split
  · exact numberTail_begins rest
  split
  · exact List.takeWhile_prefix _
  split
  · exact List.nil_prefix
  · split
    next h => exact take_one_of_head? h
    next => exact List.nil_prefix
  · exact List.nil_prefix

def rest (c : Char) (following : List Char) : List Char :=
  following.drop (munch c following).2.length

theorem rest_of_munch (c : Char) (following : List Char) :
    (munch c following).2 ++ rest c following = following :=
  List.prefix_iff_eq_append.1 (munch_begins c following)

theorem length_rest_le (c : Char) (following : List Char) :
    (rest c following).length ≤ following.length := by simp [rest]

/-- The tokens of a text that begins at `p`, with the one that ends the input. -/
def scan (p : Position) : List Char → List Token
  | [] => [⟨.eof, p.to p, ""⟩]
  | c :: following =>
    let (kind, tail) := munch c following
    let q := p.after (c :: tail)
    match kind with
    | some kind => ⟨kind, p.to q, String.ofList (c :: tail)⟩ :: scan q (rest c following)
    | none => scan q (rest c following)
  termination_by text => text.length
  decreasing_by all_goals exact Nat.lt_succ_of_le (length_rest_le ..)

/-- A text is cut at the end of its first piece. -/
theorem scan_of_munch {c : Char} {tail following : List Char} {kind : TokenKind} (p : Position)
    (h : munch c (tail ++ following) = (some kind, tail)) :
    scan p (c :: (tail ++ following)) =
      ⟨kind, p.to (p.after (c :: tail)), String.ofList (c :: tail)⟩ ::
        scan (p.after (c :: tail)) following := by
  rw [scan, rest, h]
  dsimp only
  rw [List.drop_left]

/-- A quotation mark begins a string that goes on up to the next one. -/
theorem munch_quoted {text : List Char} (following : List Char) (h : '"' ∉ text) :
    munch '"' ((text ++ ['"']) ++ following) =
      (some (.string (String.ofList text)), text ++ ['"']) := by
  have hall : ∀ c ∈ text, decide (c ≠ '"') = true := by
    intro c hc
    rw [decide_eq_true_eq]
    rintro rfl
    exact h hc
  have htake : ((text ++ ['"']) ++ following).takeWhile (fun c => decide (c ≠ '"')) = text := by
    rw [List.append_assoc, List.takeWhile_append_of_pos hall]
    simp
  have hdrop : ((text ++ ['"']) ++ following).dropWhile (fun c => decide (c ≠ '"')) =
      '"' :: following := by
    rw [List.append_assoc, List.dropWhile_append_of_pos hall]
    simp
  have hblank : Text.isBlank '"' = false := by decide
  rw [munch, hblank]
  simp only [Bool.false_eq_true, if_false, stringTail, htake, hdrop]
  rfl

def ofSource (source : String) : List Token := scan .start source.toList

end SceneScript.Token
