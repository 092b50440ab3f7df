import HmcClient.Proofs.Json.Record
import HmcClient.Proofs.Number.Nearest

/-!
# Records that keep the members of other names

What a record that keeps unknown members makes of an object, and what it writes for it. The members
of an object value stand in the order of their names. So those that no field takes, once taken out,
are again such members, and writing them beside the fields puts every one back in its place. A field
writes what it was given, or null if it was given nothing; whatever it writes it reads again as the
value that it has (`Field.Faithful`). Only numbers that are held as doubles are written as the
double that is nearest.

What is shown of a record here rests on its list of fields alone (`Record.Lists`).
-/

namespace HmcClient

/-! ## Values as they are read from texts -/

/-- Whether a number is one that a value can hold: an integer of 64 bits or a finite double. -/
def Number.Valid : Number → Prop
  | .integer n => Width.minInt64 ≤ n ∧ n ≤ Width.maxNat64
  | .float x => x.Representable

/-- What a number stands for. -/
def Number.toRat : Number → ℚ
  | .integer n => n
  | .float x => x.toRat

theorem Number.isNearest_toBinary64 {n : Number} (h : n.Valid) :
    n.toBinary64.IsNearest n.toRat := by
  cases n with
  | integer n =>
      have hlow : Width.minInt64 ≤ n := h.1
      have hhigh : n ≤ Width.maxNat64 := h.2
      unfold Width.minInt64 at hlow
      unfold Width.maxNat64 at hhigh
      exact Binary64.ofInt_isNearest (by omega)
  | float x => exact Binary64.isNearest_toRat h

/-- Whether members stand in the ascending order of their names. -/
def Members.Ascending (members : Members) : Prop :=
  members.Pairwise fun member other => member.1 < other.1

namespace Json

mutual

/-- Whether a value is in the form that all values have: its numbers are ones that it can hold, and
the members of its objects stand in the order of their names, each name once. -/
def Valid : Json → Prop
  | null | bool _ | string _ => True
  | number n => n.Valid
  | array items => ItemsValid items
  | object members => Members.Ascending members ∧ MembersValid members

/-- The same of the items of an array. -/
def ItemsValid : List Json → Prop
  | [] => True
  | v :: rest => v.Valid ∧ ItemsValid rest

/-- The same of the values of members. -/
def MembersValid : List (String × Json) → Prop
  | [] => True
  | (_, v) :: rest => v.Valid ∧ MembersValid rest

end

/-- Whether the second value shows the first one exactly. -/
def ShownExactly (v w : Json) : Prop := w = v

/-- Whether the second value shows the first one, a number, as the double nearest to it. -/
def ShownRounded (v w : Json) : Prop :=
  ∃ (n : Number) (x : Binary64), v = number n ∧ w = number (.float x) ∧ x.IsNearest n.toRat

theorem membersValid_iff {members : List (String × Json)} :
    MembersValid members ↔ ∀ member ∈ members, member.2.Valid := by
  induction members with
  | nil => exact ⟨fun _ _ h => absurd h List.not_mem_nil, fun _ => trivial⟩
  | cons member rest ih => rw [List.forall_mem_cons, ← ih]; rfl

end Json

/-! ## Members in order -/

namespace Members

theorem Ascending.nodup {members : Members} (h : members.Ascending) :
    (members.map Prod.fst).Nodup := by
  refine List.pairwise_map.2 (h.imp fun hlt heq => ?_)
  rw [heq] at hlt
  exact String.lt_irrefl _ hlt

theorem mem_insert {members : Members} {name : String} {v : Json} {member : String × Json}
    (h : member ∈ members.insert name v) : member = (name, v) ∨ member ∈ members := by
  induction members with
  | nil => exact .inl (List.mem_singleton.1 h)
  | cons first rest ih =>
      rw [insert] at h
      split at h
      · exact List.mem_cons.1 h
      · split at h
        · exact (List.mem_cons.1 h).imp_right (List.mem_cons_of_mem _)
        · rcases List.mem_cons.1 h with rfl | h
          · exact .inr (List.mem_cons_self ..)
          · exact (ih h).imp_right (List.mem_cons_of_mem _)

/-- Adding a member keeps the order. -/
theorem Ascending.insert {members : Members} (h : members.Ascending) (name : String) (v : Json) :
    Ascending (members.insert name v) := by
  induction members with
  | nil => exact List.pairwise_singleton ..
  | cons first rest ih =>
      obtain ⟨hfirst, hrest⟩ := List.pairwise_cons.1 h
      rw [Members.insert]
      split
      · rename_i hlt
        refine List.pairwise_cons.2 ⟨fun member hmem => ?_, h⟩
        rcases List.mem_cons.1 hmem with rfl | hmem
        · exact hlt
        · exact String.lt_trans hlt (hfirst member hmem)
      · rename_i hnot
        split
        · rename_i heq
          exact List.pairwise_cons.2 ⟨fun member hmem => heq ▸ hfirst member hmem, hrest⟩
        · rename_i hne
          have hlt : first.1 < name := by
            by_contra hle
            exact hne (String.le_antisymm (String.not_lt.1 hle) (String.not_lt.1 hnot))
          refine List.pairwise_cons.2 ⟨fun member hmem => ?_, ih hrest⟩
          rcases mem_insert hmem with rfl | hmem
          · exact hlt
          · exact hfirst member hmem

theorem ascending_ofList (entries : List (String × Json)) : Ascending (ofList entries) := by
  have added (members : Members) (h : members.Ascending) :
      Ascending (entries.foldl (fun members entry => members.insert entry.1 entry.2) members) := by
    induction entries generalizing members with
    | nil => exact h
    | cons entry rest ih => exact ih _ (h.insert entry.1 entry.2)
  exact added [] List.Pairwise.nil

theorem mem_of_lookup {members : Members} {name : String} {v : Json}
    (h : members.lookup name = some v) : (name, v) ∈ members := by
  obtain ⟨before, after, rfl, -⟩ := List.lookup_eq_some_iff.1 h
  exact List.mem_append_right _ (List.mem_cons_self ..)

/-- Members in order are told by what they are. -/
theorem Ascending.eq_of_perm {members others : Members} (h : members.Ascending)
    (hothers : others.Ascending) (hperm : members.Perm others) : members = others :=
  hperm.eq_of_pairwise
    (fun _ _ _ _ hlt hgt => absurd (String.lt_trans hlt hgt) (String.lt_irrefl _)) h hothers

/-- Members that stand in order stay as they are. -/
theorem ofList_of_ascending {members : Members} (h : members.Ascending) :
    ofList members = members :=
  (ascending_ofList members).eq_of_perm h (ofList_perm h.nodup)

/-- A member that is added hides those of its name and no others. -/
theorem get?_insert (members : Members) (name : String) (v : Json) (other : String) :
    (members.insert name v).get? other = if other = name then some v else members.get? other := by
  have hcons (rest : Members) (n : String) (w : Json) :
      get? ((n, w) :: rest) other = if other = n then some w else rest.get? other := by
    rw [get?, List.lookup_cons, get?]
    split
    next heq => rw [if_pos (beq_iff_eq.1 heq)]
    next hne => rw [if_neg (beq_eq_false_iff_ne.1 hne)]
  induction members with
  | nil => exact hcons [] name v
  | cons member rest ih =>
      obtain ⟨n, w⟩ := member
      rw [insert]
      split
      · exact hcons ((n, w) :: rest) name v
      · split
        next heq =>
            subst heq
            rw [hcons, hcons]
            split
            · rfl
            · rfl
        next hne =>
            rw [hcons, hcons, ih]
            split
            next hn => rw [if_neg fun h => hne (h.symm.trans hn)]
            · rfl

/-- Of several members of one name the last one counts. -/
theorem get?_ofList (entries : List (String × Json)) (name : String) :
    (ofList entries).get? name = entries.reverse.lookup name := by
  induction entries using List.reverseRecOn with
  | nil => rfl
  | append_singleton entries entry ih =>
      have hfold : ofList (entries ++ [entry]) = (ofList entries).insert entry.1 entry.2 := by
        rw [ofList, List.foldl_append]
        rfl
      rw [hfold, get?_insert, ih, List.reverse_append, List.reverse_singleton,
        List.singleton_append, List.lookup_cons]
      split
      next heq => rw [beq_iff_eq.2 heq]
      next hne => rw [beq_false_of_ne hne]

/-- What is added last counts first; names that are given once may be looked up in any order. -/
theorem get?_ofList_append {entries : List (String × Json)} {extra : Members}
    (hentries : (entries.map Prod.fst).Nodup) (hextra : extra.Ascending) (name : String) :
    (ofList (entries ++ extra)).get? name = (extra.get? name).or (entries.lookup name) := by
  rw [get?_ofList, List.reverse_append, List.lookup_append,
    ← lookup_perm extra.reverse_perm.symm hextra.nodup,
    ← lookup_perm entries.reverse_perm.symm hentries, get?]

end Members

/-! ## Documents of values -/

namespace Document

mutual

/-- A document that says a value has no other. -/
theorem eq_of_value? (v : Json) (hv : v.Valid) {depth : Nat} {w : Json}
    (h : value? depth (ofValue v) = some w) : w = v := by
  match v with
  | .null | .bool _ | .number _ | .string _ =>
      simpa [ofValue, value?] using h.symm
  | .array items =>
      rw [ofValue, value?] at h
      split at h
      · cases h
      · obtain ⟨ws, hws, rfl⟩ := Option.map_eq_some_iff.1 h
        rw [eq_of_values? items hv hws]
  | .object members =>
      rw [ofValue, value?] at h
      split at h
      · cases h
      · obtain ⟨entries, hentries, rfl⟩ := Option.map_eq_some_iff.1 h
        rw [eq_of_memberValues? members hv.2 hentries, Json.ofEntries,
          Members.ofList_of_ascending hv.1]

theorem eq_of_values? (items : List Json) (hv : Json.ItemsValid items) {depth : Nat}
    {ws : List Json} (h : values? depth (ofValues items) = some ws) : ws = items := by
  match items with
  | [] => simpa [ofValues, values?] using h.symm
  | v :: rest =>
      rw [ofValues, values?] at h
      obtain ⟨w, hw, h⟩ := Option.bind_eq_some_iff.1 h
      obtain ⟨ws', hws, h⟩ := Option.bind_eq_some_iff.1 h
      rw [← Option.some.inj h, eq_of_value? v hv.1 hw, eq_of_values? rest hv.2 hws]

theorem eq_of_memberValues? (members : List (String × Json)) (hv : Json.MembersValid members)
    {depth : Nat} {entries : List (String × Json)}
    (h : memberValues? depth (ofMembers members) = some entries) : entries = members := by
  match members with
  | [] => simpa [ofMembers, memberValues?] using h.symm
  | (name, v) :: rest =>
      rw [ofMembers, memberValues?] at h
      obtain ⟨name', hname, h⟩ := Option.bind_eq_some_iff.1 h
      obtain ⟨w, hw, h⟩ := Option.bind_eq_some_iff.1 h
      obtain ⟨others, hothers, h⟩ := Option.bind_eq_some_iff.1 h
      rw [← Option.some.inj h, eq_of_value? v hv.1 hw, eq_of_memberValues? rest hv.2 hothers,
        Option.some.inj hname]

end

end Document

/-! ## Codecs -/

namespace Codec

/-- Whether what a type writes for a value shows the value in a certain way, and is read again as
the same. -/
def Keeps {β : Type} (c : Codec β) (shown : Json → Json → Prop) : Prop :=
  ∀ {depth : Nat} {v : Json} {b : β}, v.Valid → c.decode depth (.ofValue v) = some b →
    shown v (c.encode b) ∧ c.encode b ≠ .null ∧ c.decode depth (.ofValue (c.encode b)) = some b

theorem keeps_text : text.Keeps Json.ShownExactly := by
  intro depth v b _ h
  cases v with
  | string s =>
      cases h
      exact ⟨rfl, nofun, rfl⟩
  | null | bool | number | array | object => cases h

theorem keeps_bool : bool.Keeps Json.ShownExactly := by
  intro depth v b _ h
  cases v with
  | bool value =>
      cases h
      exact ⟨rfl, nofun, rfl⟩
  | null | number | string | array | object => cases h

theorem keeps_nat (high : Nat) : (nat high).Keeps Json.ShownExactly := by
  intro depth v b _ h
  cases v with
  | number n =>
      cases n with
      | float => cases h
      | integer n =>
          have hrange : 0 ≤ n ∧ n ≤ high := by
            by_contra hout
            rw [show (nat high).decode depth (.ofValue (.number (.integer n))) = none from
              congrArg (Option.map Int.toNat) (if_neg hout)] at h
            cases h
          have hread : (nat high).decode depth (.ofValue (.number (.integer n))) = some n.toNat :=
            congrArg (Option.map Int.toNat) (if_pos hrange)
          obtain rfl := Option.some.inj (hread.symm.trans h)
          have hwritten : (nat high).encode n.toNat = .number (.integer n) := by
            show Json.number (.integer (n.toNat : Int)) = _
            rw [Int.toNat_of_nonneg hrange.1]
          rw [hwritten]
          exact ⟨rfl, nofun, hread⟩
  | null | bool | string | array | object => cases h

theorem keeps_nat32 : nat32.Keeps Json.ShownExactly := keeps_nat _

theorem keeps_nat64 : nat64.Keeps Json.ShownExactly := keeps_nat _

theorem keeps_float : float.Keeps Json.ShownRounded := by
  intro depth v b hv h
  cases v with
  | number n =>
      obtain rfl := Option.some.inj h
      have hnearest := Number.isNearest_toBinary64 hv
      have hwritten : float.encode n.toBinary64 = .number (.float n.toBinary64) :=
        if_pos hnearest.1.isFinite
      rw [hwritten]
      exact ⟨⟨n, _, rfl, rfl, hnearest⟩, nofun, rfl⟩
  | null | bool | string | array | object => cases h

theorem encode_items {β : Type} {c : Codec β} (hc : c.Keeps Json.ShownExactly) {depth : Nat}
    {items : List Json} (hv : Json.ItemsValid items) {bs : List β}
    (h : (Document.ofValues items).mapM (c.decode depth) = some bs) : bs.map c.encode = items := by
  induction items generalizing bs with
  | nil =>
      obtain rfl := Option.some.inj h
      rfl
  | cons v rest ih =>
      rw [Document.ofValues, List.mapM_cons] at h
      obtain ⟨b, hb, h⟩ := Option.bind_eq_some_iff.1 h
      obtain ⟨others, hothers, h⟩ := Option.bind_eq_some_iff.1 h
      obtain rfl := Option.some.inj h
      rw [List.map_cons, ih hv.2 hothers, show c.encode b = v from (hc hv.1 hb).1]

theorem keeps_list {β : Type} {c : Codec β} (hc : c.Keeps Json.ShownExactly) :
    (list c).Keeps Json.ShownExactly := by
  intro depth v b hv h
  cases v with
  | array items =>
      by_cases hdepth : depth = 0
      · rw [show (list c).decode depth (.ofValue (.array items)) = none from if_pos hdepth] at h
        cases h
      · have hread : (list c).decode depth (.ofValue (.array items)) =
            (Document.ofValues items).mapM (c.decode (depth - 1)) := if_neg hdepth
        have hwritten : (list c).encode b = .array items :=
          congrArg Json.array (encode_items hc hv (hread.symm.trans h))
        rw [hwritten]
        exact ⟨rfl, nofun, h⟩
  | null | bool | number | string | object => cases h

/-- A list with no items is read wherever a list may be. -/
theorem decode_nil {β : Type} (c : Codec β) {depth : Nat} (h : 0 < depth) :
    (list c).decode depth (.ofValue ((list c).encode [])) = some [] := if_neg h.ne'

end Codec

/-! ## Fields -/

/-- A field of a record: whether what is given stands for the value that it has in `x`, what is
written for this value, and how that shows the value that was given. -/
structure Field (R : Type) where
  name : String
  Reads : Given → R → Prop
  written : R → Json
  Shown : Json → Json → Prop

namespace Field

variable {R β : Type}

/-- How a required field is read. -/
def readRequired (name : String) (c : Codec β) (given : Given) : Option β := do
  c.decode given.depth (← given.field name)

/-- How a field with a default is read. -/
def readDefaulted (name : String) (c : Codec β) (default : β) (given : Given) : Option β :=
  match given.field name with
  | none => some default
  | some d => c.decode given.depth d

/-- A field that must be there. -/
def required (name : String) (c : Codec β) (shown : Json → Json → Prop) (get : R → β) : Field R :=
  ⟨name, fun given x => readRequired name c given = some (get x), fun x => c.encode (get x), shown⟩

/-- A field that has `default` if it is missing. -/
def defaulted (name : String) (c : Codec β) (shown : Json → Json → Prop) (default : β)
    (get : R → β) : Field R :=
  ⟨name, fun given x => readDefaulted name c default given = some (get x),
    fun x => c.encode (get x), shown⟩

/-- A field that may be missing or null. -/
def optional (name : String) (c : Codec β) (shown : Json → Json → Prop) (get : R → Option β) :
    Field R :=
  ⟨name, fun given x => Record.readOptional name c given = some (get x),
    fun x => c.option.encode (get x), shown⟩

/-- Whether a field shows what it was given, and reads back what it writes. Below the record there
must be room for a list. -/
def Faithful (f : Field R) : Prop :=
  ∀ {given : Given} {x : R} {o : Option Json}, given.field f.name = o.map .ofValue →
    (∀ v ∈ o, v.Valid) → f.Reads given x →
      (∀ v ∈ o, v ≠ .null → f.Shown v (f.written x)) ∧
      ∀ again : Given, again.depth = given.depth → 0 < again.depth →
        again.field f.name = some (.ofValue (f.written x)) → f.Reads again x

theorem faithful_required {c : Codec β} {shown : Json → Json → Prop} (hc : c.Keeps shown)
    (name : String) (get : R → β) : (required name c shown get).Faithful := by
  intro given x o hgiven hvalid hreads
  change given.field name = _ at hgiven
  change readRequired name c given = _ at hreads
  rw [readRequired, hgiven] at hreads
  cases o with
  | none => cases hreads
  | some v =>
      obtain ⟨hshown, -, hagain⟩ := hc (hvalid v rfl) hreads
      refine ⟨fun w hw _ => Option.some.inj hw ▸ hshown, fun again hdepth _ hwritten => ?_⟩
      change again.field name = some (.ofValue (c.encode (get x))) at hwritten
      show readRequired name c again = _
      rw [readRequired, hwritten, hdepth]
      exact hagain

theorem faithful_defaulted {c : Codec β} {shown : Json → Json → Prop} {default : β}
    (hc : c.Keeps shown) (hdefault : ∀ {depth : Nat}, 0 < depth →
      c.decode depth (.ofValue (c.encode default)) = some default) (name : String) (get : R → β) :
    (defaulted name c shown default get).Faithful := by
  intro given x o hgiven hvalid hreads
  change given.field name = _ at hgiven
  change readDefaulted name c default given = _ at hreads
  rw [readDefaulted, hgiven] at hreads
  -- Whatever was given, it is enough that the value written is one that can be read.
  have hread (again : Given) (hwritten : again.field name = some (.ofValue (c.encode (get x))))
      (h : c.decode again.depth (.ofValue (c.encode (get x))) = some (get x)) :
      readDefaulted name c default again = some (get x) := by
    rw [readDefaulted, hwritten]
    exact h
  cases o with
  | none =>
      obtain hget : default = get x := Option.some.inj hreads
      exact ⟨nofun, fun again _ hroom hwritten => hread again hwritten (hget ▸ hdefault hroom)⟩
  | some v =>
      obtain ⟨hshown, -, hagain⟩ := hc (hvalid v rfl) hreads
      exact ⟨fun w hw _ => Option.some.inj hw ▸ hshown,
        fun again hdepth _ hwritten => hread again hwritten (hdepth ▸ hagain)⟩

/-- A value that is not null is read by the type. -/
theorem decode_option {c : Codec β} {v : Json} (hv : v ≠ .null) (depth : Nat) :
    c.option.decode depth (.ofValue v) = (c.decode depth (.ofValue v)).map some := by
  cases v with
  | null => exact absurd rfl hv
  | bool | number | string | array | object => rfl

theorem faithful_optional {c : Codec β} {shown : Json → Json → Prop} (hc : c.Keeps shown)
    (name : String) (get : R → Option β) : (optional name c shown get).Faithful := by
  intro given x o hgiven hvalid hreads
  change given.field name = _ at hgiven
  change Record.readOptional name c given = _ at hreads
  rw [Record.readOptional, hgiven] at hreads
  -- Nothing given and null are both none, which is written as null.
  have hnone (hget : none = get x) (again : Given)
      (hwritten : again.field name = some (.ofValue (c.option.encode (get x)))) :
      Record.readOptional name c again = some (get x) := by
    rw [Record.readOptional, hwritten, ← hget]
    rfl
  cases o with
  | none =>
      exact ⟨fun w hw => absurd hw.symm (Option.some_ne_none w),
        fun again _ _ => hnone (Option.some.inj hreads) again⟩
  | some v =>
      by_cases hnull : v = .null
      · subst hnull
        exact ⟨fun w hw hne => absurd (Option.some.inj hw).symm hne,
          fun again _ _ => hnone (Option.some.inj hreads) again⟩
      · change c.option.decode given.depth (.ofValue v) = some (get x) at hreads
        rw [decode_option hnull] at hreads
        obtain ⟨b, hb, hget⟩ := Option.map_eq_some_iff.1 hreads
        obtain ⟨hshown, hwrites, hagain⟩ := hc (hvalid v rfl) hb
        have hencode : c.option.encode (get x) = c.encode b := by rw [← hget]; rfl
        refine ⟨fun w hw _ => ?_, fun again hdepth _ hwritten => ?_⟩
        · obtain rfl := Option.some.inj hw
          show shown v (c.option.encode (get x))
          rw [hencode]
          exact hshown
        change again.field name = some (.ofValue (c.option.encode (get x))) at hwritten
        show Record.readOptional name c again = _
        rw [Record.readOptional, hwritten, hencode]
        show c.option.decode again.depth (.ofValue (c.encode b)) = _
        rw [decode_option hwrites, hdepth, hagain, ← hget]
        rfl

end Field

/-! ## Objects -/

namespace Record

variable {R α β γ : Type}

/-- The members that no field takes. -/
def unnamed (names : List String) (members : Members) : Members :=
  members.filter fun member => !names.contains member.1

theorem ascending_unnamed {members : Members} (h : members.Ascending) (names : List String) :
    (unnamed names members).Ascending := List.Pairwise.filter _ h

theorem mem_unnamed {names : List String} {members : Members} {member : String × Json} :
    member ∈ unnamed names members ↔ member ∈ members ∧ member.1 ∉ names := by
  rw [unnamed, List.mem_filter, Bool.not_eq_true', ← Bool.not_eq_true, List.contains_iff_mem]

theorem filter_ofMembers (names : List String) (members : List (String × Json)) :
    ((Document.ofMembers members).filter fun (name, _) => name.all fun name =>
      !names.contains name) = Document.ofMembers (unnamed names members) := by
  induction members with
  | nil => rfl
  | cons member rest ih =>
      rw [unnamed] at ih ⊢
      rw [Document.ofMembers, List.filter_cons, List.filter_cons, ih]
      show (if !names.contains member.1 then _ else _) = _
      split <;> rfl

/-- A record that keeps unknown members is read from an object by its fields, each given what stands
under its name, beside the members that are left. -/
theorem decodeKeeping_object (r : Record R R) {members : Members} (hascending : members.Ascending)
    (hvalid : Json.MembersValid (unnamed r.names members)) (depth : Nat) : ∃ given : Given,
      given.depth = depth ∧ given.extra = unnamed r.names members ∧
      (∀ name ∈ r.names, given.field name = (members.lookup name).map Document.ofValue) ∧
      r.codecKeeping.decode (depth + 1) (.ofValue (.object members)) =
        (Document.memberValues? depth (Document.ofMembers (unnamed r.names members))).bind
          fun _ => r.read given := by
  obtain ⟨found, hfound, hlookup⟩ := declared?_ofMembers r.names hascending.nodup
  refine ⟨⟨depth, fun name => found.lookup name, unnamed r.names members⟩, rfl, rfl, hlookup, ?_⟩
  show (ofObjectKeeping? r.names depth (Document.ofMembers members)).bind r.read = _
  rw [ofObjectKeeping?, ofObject?, hfound, filter_ofMembers]
  show ((Document.memberValues? depth (Document.ofMembers (unnamed r.names members))).bind
    fun entries =>
      some (⟨depth, fun name => found.lookup name, Members.ofList entries⟩ : Given)).bind
        r.read = _
  cases hvalues : Document.memberValues? depth (Document.ofMembers (unnamed r.names members)) with
  | none => rfl
  | some entries =>
      obtain rfl := Document.eq_of_memberValues? _ hvalid hvalues
      rw [Option.bind_some, Members.ofList_of_ascending (ascending_unnamed hascending _)]
      rfl

/-! ## Records -/

section Reading

variable (given : Given)

/-! What a record reads is put together from what its fields read, one after the other. -/

theorem read_add_eq (r : Record R (β → α)) (name : String) (readField : Given → Option β)
    (writeField : R → List (String × Json)) : (r.add name readField writeField).read given =
      (r.read given).bind fun f => (readField given).map f := by
  show ((r.read given).bind fun f => (readField given).bind fun b => some (f b)) = _
  simp only [Option.map_eq_bind, Function.comp_def]

theorem read_required_eq (r : Record R (β → α)) (name : String) (c : Codec β) (get : R → β) :
    (r.required name c get).read given =
      (r.read given).bind fun f => (Field.readRequired name c given).map f := read_add_eq ..

theorem read_defaulted_eq (r : Record R (β → α)) (name : String) (c : Codec β) (default : β)
    (get : R → β) : (r.defaulted name c default get).read given =
      (r.read given).bind fun f => (Field.readDefaulted name c default given).map f :=
  read_add_eq ..

theorem read_optional_eq (r : Record R (Option β → α)) (name : String) (c : Codec β)
    (get : R → Option β) : (r.optional name c get).read given =
      (r.read given).bind fun f => (readOptional name c given).map f := read_add_eq ..

theorem read_others_eq (r : Record R (Members → α)) (get : R → Members) :
    (r.others get).read given = (r.read given).map fun f => f given.extra := by
  show ((r.read given).bind fun f => some (f given.extra)) = _
  simp only [Option.map_eq_bind, Function.comp_def]

theorem read_make_eq (mk : α) : (make R mk).read given = some mk := rfl

end Reading

/-- Whether a record is made of a list of fields and a place for the members of other names. -/
structure Lists (r : Record R R) (fields : List (Field R)) (extra : R → Members) : Prop where
  names : r.names = fields.map (·.name)
  write : ∀ x, r.write x = fields.map (fun f => (f.name, f.written x)) ++ extra x
  reads : ∀ given x, r.read given = some x → (∀ f ∈ fields, f.Reads given x) ∧ given.extra = extra x
  read : ∀ given x, (∀ f ∈ fields, f.Reads given x) → given.extra = extra x → r.read given = some x

/-- What is shown for an object that was read, by the object that is written: it is read as the
same, each field shows what it was given, and the members of other names are all there. -/
structure Restores (fields : List (Field R)) (c : Codec R) (depth : Nat) (members : Members)
    (x : R) (written : Members) : Prop where
  encode : c.encode x = .object written
  decode : c.decode depth (.ofValue (.object written)) = some x
  others : ∀ name v, name ∉ fields.map (·.name) → members.lookup name = some v →
    written.lookup name = some v
  declared : ∀ f ∈ fields, ∀ v, members.lookup f.name = some v → v ≠ .null →
    ∃ w, written.lookup f.name = some w ∧ f.Shown v w

section Lists

variable {r : Record R R} {fields : List (Field R)} {extra : R → Members}

/-- The names of what is written, none of them twice. -/
theorem Lists.write_nodup (h : r.Lists fields extra) (hdistinct : (fields.map (·.name)).Nodup)
    {members : Members} (hascending : members.Ascending) {x : R}
    (hextra : extra x = unnamed (fields.map (·.name)) members) :
    ((r.write x).map Prod.fst).Nodup := by
  rw [h.write, hextra, List.map_append, List.map_map]
  refine List.nodup_append.2 ⟨hdistinct, (ascending_unnamed hascending _).nodup, ?_⟩
  rintro name hname _ hother rfl
  obtain ⟨member, hmember, rfl⟩ := List.mem_map.1 hother
  exact (mem_unnamed.1 hmember).2 hname

/-- What is left of the members that are written when those of the fields are taken out. -/
theorem Lists.unnamed_write (h : r.Lists fields extra) (hdistinct : (fields.map (·.name)).Nodup)
    {members : Members} (hascending : members.Ascending) {x : R}
    (hextra : extra x = unnamed (fields.map (·.name)) members) :
    unnamed r.names (Members.ofList (r.write x)) = extra x := by
  have hperm := Members.ofList_perm (h.write_nodup hdistinct hascending hextra)
  have hfields : unnamed r.names (fields.map fun f => (f.name, f.written x)) = [] := by
    refine List.filter_eq_nil_iff.2 fun member hmember => ?_
    obtain ⟨f, hf, rfl⟩ := List.mem_map.1 hmember
    simpa [h.names] using ⟨f, hf, rfl⟩
  have hothers : unnamed r.names (extra x) = extra x := by
    refine List.filter_eq_self.2 fun member hmember => ?_
    rw [hextra] at hmember
    simpa [h.names] using (mem_unnamed.1 hmember).2
  refine Members.Ascending.eq_of_perm (ascending_unnamed (Members.ascending_ofList _) _)
    (hextra ▸ ascending_unnamed hascending _) ((hperm.filter _).trans (List.Perm.of_eq ?_))
  rw [h.write, List.filter_append]
  exact (congrArg₂ (· ++ ·) hfields hothers).trans (List.nil_append _)

/-- A record whose fields are faithful restores the objects that it reads. -/
theorem Lists.restores (h : r.Lists fields extra) (hfaithful : ∀ f ∈ fields, f.Faithful)
    (hdistinct : (fields.map (·.name)).Nodup) {depth : Nat} (hdepth : 1 < depth)
    {members : Members} (hvalid : (Json.object members).Valid) {x : R}
    (hx : r.codecKeeping.decode depth (.ofValue (.object members)) = some x) :
    extra x = unnamed (fields.map (·.name)) members ∧
      ∃ written, Restores fields r.codecKeeping depth members x written := by
  obtain ⟨hascending, hmembers⟩ := hvalid
  obtain ⟨depth, rfl⟩ : ∃ below, depth = below + 1 := ⟨depth - 1, by omega⟩
  have hkept : Json.MembersValid (unnamed r.names members) :=
    Json.membersValid_iff.2 fun member hmember =>
      Json.membersValid_iff.1 hmembers member (mem_unnamed.1 hmember).1
  obtain ⟨given, rfl, hgivenExtra, hgiven, hdecode⟩ := decodeKeeping_object r hascending hkept depth
  rw [hdecode] at hx
  obtain ⟨values, hvalues, hread⟩ := Option.bind_eq_some_iff.1 hx
  obtain ⟨hreads, hextra⟩ := h.reads given x hread
  replace hextra : extra x = unnamed (fields.map (·.name)) members := by
    rw [← hextra, hgivenExtra, h.names]
  -- Each field has its own from the object, and writes and reads it back.
  have hfield (f : Field R) (hf : f ∈ fields) := hfaithful f hf
    (hgiven f.name (h.names ▸ List.mem_map_of_mem hf))
    (fun v hv => Json.membersValid_iff.1 hmembers (f.name, v) (Members.mem_of_lookup hv))
    (hreads f hf)
  have hnodup := h.write_nodup hdistinct hascending hextra
  have hlookup (name : String) :
      (Members.ofList (r.write x)).lookup name = List.lookup name (r.write x) :=
    Members.lookup_perm (Members.ofList_perm hnodup)
      (((Members.ofList_perm hnodup).map Prod.fst).nodup_iff.2 hnodup) name
  have hwritten (f : Field R) (hf : f ∈ fields) :
      (Members.ofList (r.write x)).lookup f.name = some (f.written x) := by
    rw [hlookup]
    refine Members.lookup_of_mem hnodup ?_
    rw [h.write]
    exact List.mem_append_left _ (List.mem_map.2 ⟨f, hf, rfl⟩)
  refine ⟨hextra, Members.ofList (r.write x), rfl, ?_, ?_, ?_⟩
  · -- What is written for fields and beside them is again what it was.
    have hunnamed := h.unnamed_write hdistinct hascending hextra
    have hsame : unnamed r.names (Members.ofList (r.write x)) = unnamed r.names members := by
      rw [hunnamed, hextra, h.names]
    obtain ⟨again, hdepthAgain, hextraAgain, hagain, hdecodeAgain⟩ := decodeKeeping_object r
      (Members.ascending_ofList (r.write x)) (hsame ▸ hkept) given.depth
    rw [hdecodeAgain, hsame, hvalues]
    refine h.read again x (fun f hf => ?_) (hextraAgain.trans hunnamed)
    refine (hfield f hf).2 again hdepthAgain (by omega) ?_
    rw [hagain f.name (h.names ▸ List.mem_map_of_mem hf), hwritten f hf]
    rfl
  · intro name v hname hv
    rw [hlookup]
    refine Members.lookup_of_mem hnodup ?_
    rw [h.write, hextra]
    exact List.mem_append_right _ (mem_unnamed.2 ⟨Members.mem_of_lookup hv, hname⟩)
  · intro f hf v hv hnull
    exact ⟨_, hwritten f hf, (hfield f hf).1 v hv hnull⟩

end Lists

end Record

end HmcClient
