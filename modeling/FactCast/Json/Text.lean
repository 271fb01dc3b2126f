import FactCast.Json.Document
import Mathlib.Algebra.GroupWithZero.Nat

/-! JSON as text.

A database writes a document with a space after each colon and each comma
(`Jsonb.text`), and an object it builds of texts with one before the colon as well
(`jsonBuildObject`). Where a text is limited the limit is one of bytes, and a text has
at least as many bytes as any part of it (`bytes_le_of_hasMember`). -/
namespace Jsonb

/-- A character of a string as it is written. -/
def escape (c : Char) : List Char :=
  if c = '"' then ['\\', '"']
  else if c = '\\' then ['\\', '\\']
  else if c = '\n' then ['\\', 'n']
  else if c = '\r' then ['\\', 'r']
  else if c = '\t' then ['\\', 't']
  else if c.toNat = 8 then ['\\', 'b']
  else if c.toNat = 12 then ['\\', 'f']
  else if c.toNat < 32 then ['\\', 'u', '0', '0', Nat.digitChar (c.toNat / 16), Nat.digitChar (c.toNat % 16)]
  else [c]

def quote (s : String) : List Char := '"' :: s.toList.flatMap escape ++ ['"']

def separated : List (List Char) → List Char
  | [] => []
  | [piece] => piece
  | piece :: rest => piece ++ [',', ' '] ++ separated rest

mutual

def text : Jsonb → List Char
  | .null => ['n', 'u', 'l', 'l']
  | .bool true => ['t', 'r', 'u', 'e']
  | .bool false => ['f', 'a', 'l', 's', 'e']
  | .num n => n.text.toList
  | .str s => quote s
  | .arr items => '[' :: separated (texts items) ++ [']']
  | .obj members => '{' :: separated (memberTexts members) ++ ['}']

def texts : List Jsonb → List (List Char)
  | [] => []
  | d :: rest => text d :: texts rest

def memberTexts : List (String × Jsonb) → List (List Char)
  | [] => []
  | (name, v) :: rest => (quote name ++ [':', ' '] ++ text v) :: memberTexts rest

end

/-- What is written of an object whose members are given as texts. -/
def jsonBuildObject (members : List (String × List Char)) : List Char :=
  '{' :: separated (members.map fun m => quote m.1 ++ [' ', ':', ' '] ++ m.2) ++ ['}']

/-- `->>` of a member: what is null has no text, and a container is written down. -/
def columnText : Jsonb → Option String
  | .null => none
  | v => some (v.scalarText.getD (.ofList v.text))

def column (d : Jsonb) (name : String) : Option String := (d.get? name).bind columnText

/-! ### Bytes -/

def bytes (text : List Char) : Nat := (text.map Char.utf8Size).sum

@[simp] theorem bytes_nil : bytes [] = 0 := rfl

@[simp] theorem bytes_cons (c : Char) (text : List Char) : bytes (c :: text) = c.utf8Size + bytes text := by
  simp [bytes]

@[simp] theorem bytes_append (front back : List Char) : bytes (front ++ back) = bytes front + bytes back := by
  simp [bytes]

theorem length_le_bytes (text : List Char) : text.length ≤ bytes text := by
  induction text with
  | nil => exact Nat.le_refl _
  | cons c rest ih =>
    have := c.utf8Size_pos
    rw [List.length_cons, bytes_cons]
    omega

theorem length_escape_pos (c : Char) : 0 < (escape c).length := by
  unfold escape
  split_ifs <;> exact Nat.succ_pos _

theorem length_le_bytes_quote (s : String) : s.toList.length ≤ bytes (quote s) := by
  have hescaped : s.toList.length ≤ (s.toList.flatMap escape).length := by
    induction s.toList with
    | nil => exact Nat.le_refl _
    | cons c rest ih =>
      have := length_escape_pos c
      rw [List.flatMap_cons, List.length_append, List.length_cons]
      omega
  have := length_le_bytes (s.toList.flatMap escape)
  simp only [quote, bytes_append, bytes_cons, List.cons_append]
  omega

theorem bytes_le_separated {piece : List Char} {pieces : List (List Char)} (h : piece ∈ pieces) :
    bytes piece ≤ bytes (separated pieces) := by
  induction pieces with
  | nil => cases h
  | cons first rest ih =>
    cases rest with
    | nil =>
      obtain rfl : piece = first := List.mem_singleton.mp h
      exact Nat.le_refl _
    | cons second rest =>
      simp only [separated, bytes_append]
      cases h with
      | head => omega
      | tail _ h =>
        have := ih h
        omega

theorem mem_memberTexts {name : String} {v : Jsonb} {members : List (String × Jsonb)}
    (h : (name, v) ∈ members) : quote name ++ [':', ' '] ++ text v ∈ memberTexts members := by
  induction members with
  | nil => cases h
  | cons m rest ih =>
    cases h with
    | head => exact .head _
    | tail _ h => exact .tail _ (ih h)

/-- What is in a document is not longer than the document. -/
theorem bytes_le_of_hasMember {d v : Jsonb} {name : String} (h : d.HasMember name v) :
    bytes v.text ≤ bytes d.text := by
  obtain ⟨members, rfl, hmem⟩ := h
  have := bytes_le_separated (mem_memberTexts hmem)
  simp only [text, bytes_append, bytes_cons, List.cons_append] at this ⊢
  omega

end Jsonb
