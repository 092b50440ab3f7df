import HmcClient.Number.Literal

/-!
# Names in ASCII

Before the name of a host is read it is put into ASCII: capitals become small letters, and a label
with characters beyond ASCII gets the encoded form that begins with `xn--`. What each character
becomes, and which names are refused, stands in tables of Unicode that are not here. So the step
comes from outside, as an `Idna`. All that is relied on are the laws that the URL standard has for
it.
-/

namespace HmcClient

/-- Splits at every occurrence of a separator; there is always at least one part. -/
def Host.splitOn {α : Type} (isSeparator : α → Bool) : List α → List (List α)
  | [] => [[]]
  | a :: rest =>
    if isSeparator a then [] :: splitOn isSeparator rest
    else match splitOn isSeparator rest with
      | [] => [[a]]
      | part :: parts => (a :: part) :: parts

namespace Idna

/-- Whether a character is ASCII. -/
def isAscii (c : Char) : Bool := c.toNat < 0x80

/-- Whether a label begins as the encoded form of another one does. -/
def isEncoded (label : List Char) : Bool :=
  ['x', 'n', '-', '-'].isPrefixOf (label.map Literal.lowerAscii)

/-- Whether a name is ASCII and no label of it looks like an encoded one. -/
def isPlain (cs : List Char) : Bool :=
  cs.all isAscii && (Host.splitOn (· == '.') cs).all fun label => !isEncoded label

end Idna

/-- A way to put names into ASCII. -/
structure Idna where
  /-- The name in ASCII; `none` if the name is refused. -/
  toAscii : List Char → Option (List Char)
  /-- Whatever comes out is ASCII. -/
  ascii : ∀ {cs name}, toAscii cs = some name → ∀ c ∈ name, Idna.isAscii c = true
  /-- A plain name is put into lower case. -/
  plain : ∀ {cs}, Idna.isPlain cs = true → toAscii cs = some (cs.map Literal.lowerAscii)
  /-- A name that has come out stays as it is. -/
  again : ∀ {cs name}, toAscii cs = some name → toAscii name = some name

namespace Idna

theorem isAscii_lowerAscii {c : Char} (h : isAscii c = true) :
    isAscii (Literal.lowerAscii c) = true := by
  have hall : ∀ n < 0x80, isAscii (Literal.lowerAscii (Char.ofNat n)) = true := by decide
  have hc := hall c.toNat (of_decide_eq_true h)
  rwa [Char.ofNat_toNat] at hc

/-- The name that a table has for another one. A name that is ASCII is in no need of one. -/
def lookUp (table : List (List Char × List Char)) (cs : List Char) : Option (List Char) :=
  if cs.all isAscii then some (cs.map Literal.lowerAscii) else table.lookup cs

/-- What comes out of a table of ASCII names in lower case is one. -/
theorem of_lookUp {table : List (List Char × List Char)}
    (h : ∀ entry ∈ table, entry.2.all isAscii = true ∧ entry.2.map Literal.lowerAscii = entry.2)
    {cs name : List Char} (hname : lookUp table cs = some name) :
    name.all isAscii = true ∧ name.map Literal.lowerAscii = name := by
  rw [lookUp] at hname
  split at hname
  next hcs =>
    obtain rfl := Option.some.inj hname
    refine ⟨?_, ?_⟩
    · rw [List.all_map]
      exact List.all_eq_true.2 fun c hc => isAscii_lowerAscii (List.all_eq_true.1 hcs c hc)
    · rw [List.map_map]
      exact List.map_congr_left fun c _ => Literal.lowerAscii_idem c
  next =>
    obtain ⟨before, after, rfl, -⟩ := List.lookup_eq_some_iff.1 hname
    exact h _ (List.mem_append_right before List.mem_cons_self)

/-- A table of names beyond ASCII, each with what it becomes. -/
def ofTable (table : List (List Char × List Char))
    (h : ∀ entry ∈ table, entry.2.all isAscii = true ∧
      entry.2.map Literal.lowerAscii = entry.2) : Idna where
  toAscii := lookUp table
  ascii hname := List.all_eq_true.1 (of_lookUp h hname).1
  plain hcs := if_pos (Bool.and_eq_true_iff.1 hcs).1
  again hname := by
    obtain ⟨hascii, hlower⟩ := of_lookUp h hname
    rw [lookUp, if_pos hascii, hlower]

/-- No names beyond ASCII, and no look at what an encoded label stands for. -/
def asciiOnly : Idna := ofTable [] nofun

end Idna

end HmcClient
