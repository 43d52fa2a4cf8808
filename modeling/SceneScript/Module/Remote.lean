import SceneScript.Table

namespace SceneScript.Module

/-- A source of remote texts. An answer may depend on how many requests there were before. -/
structure Remote where
  /-- The text of an address or the reason why there is none, by the number of earlier requests. -/
  fetch : Nat → String → Except String String
  /-- The addresses that are known to have a text. -/
  known : List String

namespace Remote

def Finite (r : Remote) : Prop :=
  ∀ earlier address text, r.fetch earlier address = .ok text → address ∈ r.known

/-- The answer to a request does not depend on the requests before it. -/
def Steady (r : Remote) : Prop := ∀ earlier address, r.fetch earlier address = r.fetch 0 address

def offline : Remote := ⟨fun _ _ => .error "network access is disabled", []⟩

def ofTable (texts : Table String) : Remote where
  fetch _ address :=
    match texts.get? address with
    | some text => .ok text
    | none => .error "404 Not Found"
  known := texts.keys

theorem finite_offline : offline.Finite := fun _ _ _ h => nomatch h

theorem steady_offline : offline.Steady := fun _ _ => rfl

theorem finite_ofTable (texts : Table String) : (ofTable texts).Finite := by
  intro earlier address text h
  simp only [ofTable] at h
  split at h
  next found hfound => exact Table.mem_keys_of_get? hfound
  next => cases h

theorem steady_ofTable (texts : Table String) : (ofTable texts).Steady := fun _ _ => rfl

end Remote

/-- Texts by address, and how many look-ups they have answered. -/
structure Cache where
  texts : Table String
  hits : Nat

namespace Cache

def empty : Cache := ⟨.empty, 0⟩

instance : Inhabited Cache := ⟨empty⟩

def get? (c : Cache) (address : String) : Option String × Cache :=
  match c.texts.get? address with
  | some text => (some text, { c with hits := c.hits + 1 })
  | none => (none, c)

def insert (c : Cache) (address text : String) : Cache :=
  { c with texts := c.texts.insert address text }

def size (c : Cache) : Nat := c.texts.size

end Cache
end SceneScript.Module
