namespace SceneScript.Text

abbrev Runs := List (Nat × Nat)

def Runs.hold (runs : Runs) (c : Char) : Bool :=
  runs.any fun run => run.1 ≤ c.toNat && c.toNat ≤ run.2

end SceneScript.Text
