import SceneScript.Module.Address
import SceneScript.Program.Read

namespace SceneScript.Module

def fallbackLine (address : String) : String :=
  "Could not load module " ++ address.map fun c => if c = '"' then '\'' else c

theorem quote_not_mem_fallbackLine (address : String) : '"' ∉ (fallbackLine address).toList := by
  have hquoteless : ∀ c : Char, (if c = '"' then '\'' else c) ≠ '"' := by
    intro c heq
    split at heq
    · exact absurd heq (by decide)
    next hne => exact hne heq
  unfold fallbackLine
  rw [String.toList_append, List.mem_append, String.toList_map, List.mem_map]
  rintro (h | ⟨c, -, hc⟩)
  · exact absurd h (by simp)
  · exact hquoteless c hc

theorem toList_fallbackSource (address : String) : (fallbackSource address).toList =
    "console.print(".toList ++ '"' :: ((fallbackLine address).toList ++ '"' :: [')']) := by
  have hstart : "console.print(\"Could not load module ".toList =
      "console.print(".toList ++ '"' :: "Could not load module ".toList := rfl
  have hend : "\")".toList = ['"', ')'] := rfl
  unfold fallbackSource fallbackLine
  rw [String.toList_append, String.toList_append, hstart, hend, String.toList_append]
  simp only [List.append_assoc, List.cons_append]

open Token in
/-- The string goes up to the closing quote of the stand-in: the line has no other. -/
theorem kinds_ofSource_fallbackSource (address : String) :
    (Token.ofSource (fallbackSource address)).map Token.kind =
      [.ident "console", .symbol .dot, .ident "print", .symbol .leftParen,
        .string (fallbackLine address), .symbol .rightParen, .eof] := by
  have hconsole (more : List Char) : munch 'c' ("onsole".toList ++ '.' :: more) =
      (some (.ident "console"), "onsole".toList) := rfl
  have hdot (more : List Char) : munch '.' ([] ++ more) = (some (.symbol .dot), []) := rfl
  have hprint (more : List Char) : munch 'p' ("rint".toList ++ '(' :: more) =
      (some (.ident "print"), "rint".toList) := rfl
  have hleft (more : List Char) : munch '(' ([] ++ more) = (some (.symbol .leftParen), []) := rfl
  have hright (more : List Char) : munch ')' ([] ++ more) = (some (.symbol .rightParen), []) := rfl
  have hquoted (more : List Char) := munch_quoted more (quote_not_mem_fallbackLine address)
  have hpieces : (fallbackSource address).toList =
      'c' :: ("onsole".toList ++ '.' :: ([] ++ 'p' :: ("rint".toList ++ '(' :: ([] ++ '"' ::
        (((fallbackLine address).toList ++ ['"']) ++ ')' :: ([] ++ [])))))) := by
    rw [toList_fallbackSource]
    simp
  rw [Token.ofSource, hpieces, scan_of_munch _ (hconsole _), scan_of_munch _ (hdot _),
    scan_of_munch _ (hprint _), scan_of_munch _ (hleft _), scan_of_munch _ (hquoted _),
    scan_of_munch _ (hright _), scan]
  simp only [List.map_cons, List.map_nil, String.ofList_toList]

/-- Only the kinds of the tokens make them a print of a string. -/
theorem ofTokens_print {tokens : List Token} {line : String}
    (h : tokens.map Token.kind = [.ident "console", .symbol .dot, .ident "print",
      .symbol .leftParen, .string line, .symbol .rightParen, .eof]) :
    ∃ span place, Program.ofTokens tokens = .ok ⟨[.print span (.string place line)]⟩ := by
  simp only [List.map_eq_cons_iff, List.map_eq_nil_iff] at h
  obtain ⟨⟨_, span, _⟩, _, rfl, rfl, ⟨_, _, _⟩, _, rfl, rfl, ⟨_, _, _⟩, _, rfl, rfl, ⟨_, _, _⟩, _,
    rfl, rfl, ⟨_, place, _⟩, _, rfl, rfl, ⟨_, _, _⟩, _, rfl, rfl, ⟨_, _, _⟩, _, rfl, rfl, rfl⟩ := h
  exact ⟨span, place, rfl⟩

/-- The stand-in is a program that prints its line and does nothing else. -/
theorem ofSource_fallbackSource (address : String) : ∃ span place,
    Program.ofSource (fallbackSource address) =
      .ok ⟨[.print span (.string place (fallbackLine address))]⟩ :=
  ofTokens_print (kinds_ofSource_fallbackSource address)

end SceneScript.Module
