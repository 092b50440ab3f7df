import HmcClient.Proofs.Url.Host
import Mathlib.Data.List.TakeWhile

/-!
# Authorities that are read again

User name and password are kept with everything encoded that could end them, and a host is found
again in the authority it stands in. A port is written as the number it is. So what is read as an
authority is written in a way that is read as the same one, with nothing left of the text
(`Authority.ofText_again`).

An authority without a host says nothing at all: it has neither user nor port, and no URL of the web
has one (`Authority.Written.hostless`).
-/

namespace HmcClient

namespace Url

variable {idna : Idna}

/-! ## User name and password -/

theorem splitLast?_append {α : Type} [BEq α] [LawfulBEq α] (before : List α) {a : α}
    {after : List α} (h : a ∉ after) :
    splitLast? a (before ++ a :: after) = some (before, after) := by
  have hdrop : (before ++ a :: after).reverse.dropWhile (· != a) = a :: before.reverse := by
    rw [List.reverse_append, List.reverse_cons, List.append_assoc,
      List.dropWhile_append_of_pos fun b hb => bne_iff_ne.2 fun heq : b = a =>
        h (heq ▸ List.mem_reverse.1 hb)]
    exact List.dropWhile_cons_of_neg (by simp)
  rw [splitLast?, hdrop]
  dsimp only
  rw [List.reverse_reverse, List.length_reverse, List.drop_append]
  simp

theorem splitLast?_of_not_mem {α : Type} [BEq α] [LawfulBEq α] {a : α} {xs : List α} (h : a ∉ xs) :
    splitLast? a xs = none := by
  have hdrop : xs.reverse.dropWhile (· != a) = [] :=
    List.dropWhile_eq_nil_iff.2 fun b hb => bne_iff_ne.2 fun heq : b = a =>
      h (heq ▸ List.mem_reverse.1 hb)
  rw [splitLast?, hdrop]

/-- User name and password as they stand in an authority. -/
def UserInfo.render (user : UserInfo) : List Char :=
  match user.password with
  | some password => user.username.toList ++ ':' :: password.toList ++ ['@']
  | none => if user.username.isEmpty then [] else user.username.toList ++ ['@']

/-- Whether user name and password are as they are kept: encoded, and the password not empty. -/
structure UserInfo.Written (user : UserInfo) : Prop where
  username : ∀ c ∈ user.username.toList, Percent.inUserInfo c = false
  password : ∀ p ∈ user.password, p.toList ≠ [] ∧ ∀ c ∈ p.toList, Percent.inUserInfo c = false

/-- What stands in a user name stands for itself in an authority. -/
theorem isInner_of_not_inUserInfo {c : Char} (h : Percent.inUserInfo c = false) :
    isInner c = true ∧ c ≠ ':' ∧ c ≠ '@' := by
  have hne (d : Char) (hd : Percent.inUserInfo d = true) : c ≠ d := by
    rintro rfl
    exact Bool.noConfusion (h.symm.trans hd)
  have hpadding : isPadding c = false := by
    refine isPadding_of_not_isControl ?_ (hne ' ' (by decide))
    simp only [Percent.inUserInfo, Percent.inPath, Percent.inFragment, Bool.or_eq_false_iff] at h
    exact h.1.1.1
  refine ⟨?_, hne _ (by decide), hne _ (by decide)⟩
  rw [isInner, endsAuthority, Path.isSeparator, hpadding, beq_false_of_ne (hne '/' (by decide)),
    beq_false_of_ne (hne '\\' (by decide)), beq_false_of_ne (hne '?' (by decide)),
    beq_false_of_ne (hne '#' (by decide)), bne_iff_ne.2 (hne '@' (by decide))]
  rfl

theorem toList_eq_nil {s : String} : s.toList = [] ↔ s = "" := by
  rw [← String.toList_empty, String.toList_inj]

/-- User name and password are read again. -/
theorem UserInfo.ofText_again {user : UserInfo} (h : user.Written) :
    (∀ p ∈ user.password, UserInfo.ofText (user.username.toList ++ ':' :: p.toList) = user) ∧
      (user.password = none → UserInfo.ofText user.username.toList = user) := by
  have hname : ∀ c ∈ user.username.toList, (c != ':') = true := fun c hc =>
    bne_iff_ne.2 (isInner_of_not_inUserInfo (h.username c hc)).2.1
  have hencoded {s : String} (hs : ∀ c ∈ s.toList, Percent.inUserInfo c = false) :
      String.ofList (Percent.encode Percent.inUserInfo s.toList) = s := by
    rw [Percent.encode_of_none hs, String.ofList_toList]
  constructor
  · intro p hp
    obtain ⟨hne, hchars⟩ := h.password p hp
    have htake : (user.username.toList ++ ':' :: p.toList).takeWhile (· != ':') =
        user.username.toList := by
      rw [List.takeWhile_append_of_pos hname, List.takeWhile_cons_of_neg (by decide),
        List.append_nil]
    have hdrop : (user.username.toList ++ ':' :: p.toList).dropWhile (· != ':') =
        ':' :: p.toList := by
      rw [List.dropWhile_append_of_pos hname, List.dropWhile_cons_of_neg (by decide)]
    rw [UserInfo.ofText, htake, hdrop]
    dsimp only
    rw [hencoded h.username, List.tail_cons, List.isEmpty_eq_false_iff.2 hne, hencoded hchars]
    exact congrArg (UserInfo.mk user.username) hp.symm
  · intro hnone
    rw [UserInfo.ofText, List.takeWhile_eq_self_iff.2 hname, List.dropWhile_eq_nil_iff.2 hname]
    dsimp only
    rw [hencoded h.username]
    exact congrArg (UserInfo.mk user.username) hnone.symm

/-- The user before the last at sign of an authority is read again. -/
theorem splitUser_again {user : UserInfo} (h : user.Written) (rest : List Char)
    (hrest : '@' ∉ rest) : splitUser (user.render ++ rest) = (user, rest) := by
  obtain ⟨hboth, hname⟩ := UserInfo.ofText_again h
  rw [UserInfo.render]
  cases hpassword : user.password with
  | some p =>
      dsimp only
      rw [List.append_assoc, List.singleton_append, splitUser, splitLast?_append _ hrest]
      dsimp only
      rw [hboth p hpassword]
  | none =>
      dsimp only
      split
      next hempty =>
        have hnone : user = ⟨"", none⟩ := by
          rw [← hpassword, ← String.isEmpty_iff.1 hempty]
        rw [List.nil_append, splitUser, splitLast?_of_not_mem hrest, hnone]
      · rw [List.append_assoc, List.singleton_append, splitUser, splitLast?_append _ hrest]
        dsimp only
        rw [hname hpassword]

/-- The user that is read is as it is kept. -/
theorem UserInfo.written_ofText (cs : List Char) : (UserInfo.ofText cs).Written := by
  have hencoded (ds : List Char) : ∀ c ∈ (String.ofList
      (Percent.encode Percent.inUserInfo ds)).toList, Percent.inUserInfo c = false := by
    rw [String.toList_ofList]
    exact Percent.encode_encoded (Percent.of_isEscapeChar
      (P := fun c => Percent.inUserInfo c = false) (by decide) (by decide)) ds
  refine ⟨hencoded _, fun p hp => ?_⟩
  rw [UserInfo.ofText] at hp
  dsimp only at hp
  split at hp
  · cases hp
  next hne =>
    obtain rfl := Option.some.inj hp
    refine ⟨fun hnil => hne ?_, hencoded _⟩
    rw [String.toList_ofList] at hnil
    rw [Percent.eq_nil_of_encode_eq_nil hnil]
    rfl

theorem UserInfo.written_splitUser (cs : List Char) : (splitUser cs).1.Written := by
  rw [splitUser]
  split
  · exact UserInfo.written_ofText _
  · exact ⟨nofun, nofun⟩

/-- What is read of an authority: the parts as they are kept, and neither user nor port without a
host. -/
structure Authority.Written (idna : Idna) (scheme : String) (a : Authority) : Prop where
  user : a.user.Written
  host : ∀ h ∈ a.host, Host.Written idna (isWebScheme scheme) h ∧ h ≠ .name ""
  hostless : a.host = none → isWebScheme scheme = false ∧ a.user.isNone = true ∧ a.port = none
  port : ∀ p ∈ a.port, p ≤ 65535 ∧ defaultPort? scheme ≠ some p

/-- An authority as it stands in a URL. -/
def Authority.render (a : Authority) : List Char :=
  match a.host with
  | none => []
  | some h => a.user.render ++ h.render ++
    match a.port with
    | some port => ':' :: Host.natText port
    | none => []

theorem ofDigits_digitChars {ds : List Nat} (h : ∀ d ∈ ds, d < 10) :
    Literal.ofDigits (ds.map Nat.digitChar) = Numeral.natOf ds := by
  induction ds using List.reverseRecOn with
  | nil => rfl
  | append_singleton ds d ih =>
      have hd := (Host.digitIn?_digitChar d
        (h d (List.mem_append_right _ (List.mem_singleton_self d)))).2.2
      rw [Numeral.natOf_append, ← ih fun e he => h e (List.mem_append_left _ he), Literal.ofDigits,
        List.map_append, List.foldl_append]
      show Literal.ofDigits (ds.map Nat.digitChar) * 10 +
        (Literal.digit? (Nat.digitChar d)).getD 0 = _
      rw [hd]
      rfl

theorem ofDigits_natText (n : Nat) : Literal.ofDigits (Host.natText n) = n := by
  obtain ⟨first, others, hlt, htext, hvalue, -⟩ := Numeral.toDigits_eq n
  rw [Host.natText, htext, ofDigits_digitChars hlt, hvalue]

theorem readPort_natText {scheme : String} {p : Nat} (hbound : p ≤ 65535)
    (hdefault : defaultPort? scheme ≠ some p) :
    readPort scheme (Host.natText p) = .ok (some p, []) := by
  have hdigits := Host.natText_digits p
  rw [readPort, List.takeWhile_eq_self_iff.2 hdigits, List.dropWhile_eq_nil_iff.2 hdigits,
    ofDigits_natText, if_neg (by simp), if_neg (by omega), if_neg]
  rintro (hempty | heq)
  · exact Host.natText_ne_nil p (List.isEmpty_iff.1 hempty)
  · exact hdefault heq

/-- A port that is read is one that has to be written. -/
theorem of_readPort {scheme : String} {cs rest : List Char} {port : Option Nat}
    (h : readPort scheme cs = .ok (port, rest)) :
    ∀ p ∈ port, p ≤ 65535 ∧ defaultPort? scheme ≠ some p := by
  rintro p rfl
  rw [readPort] at h
  split at h
  · cases h
  split at h
  · cases h
  next hbound =>
    split at h
    · cases h
    next hother =>
      obtain ⟨hport, -⟩ := Prod.mk.inj (Except.ok.inj h)
      obtain rfl := Option.some.inj hport
      exact ⟨Nat.not_lt.1 hbound, fun heq => hother (.inr heq)⟩

theorem Authority.ofText_eq (idna : Idna) (scheme : String) (cs : List Char) (isLast : Bool) :
    Authority.ofText idna scheme cs isLast =
      (Host.ofText idna (isWebScheme scheme) (splitHost false (splitUser cs).2).1).bind fun host =>
        if host = .name "" then
          if (splitUser cs).1.isNone && (splitHost false (splitUser cs).2).2.isEmpty &&
              (isLast || cs != ['@']) then
            .ok (⟨(splitUser cs).1, none, none⟩, [])
          else .error .emptyHost
        else
          (readPort scheme (splitHost false (splitUser cs).2).2.tail).map fun (port, rest) =>
            (⟨(splitUser cs).1, some host, port⟩, rest) := by
  rw [Authority.ofText]
  dsimp only
  cases isWebScheme scheme <;> rfl

theorem bind_eq_ok {ε α β : Type} {x : Except ε α} {f : α → Except ε β} {b : β} :
    x.bind f = .ok b ↔ ∃ a, x = .ok a ∧ f a = .ok b := by
  cases x with
  | error e => exact ⟨nofun, nofun⟩
  | ok a => exact ⟨fun h => ⟨a, rfl, h⟩, fun ⟨_, ha, h⟩ => Except.ok.inj ha ▸ h⟩

theorem map_eq_ok {ε α β : Type} {x : Except ε α} {f : α → β} {b : β} :
    x.map f = .ok b ↔ ∃ a, x = .ok a ∧ f a = b := by
  cases x with
  | error e => exact ⟨nofun, nofun⟩
  | ok a => exact ⟨fun h => ⟨a, rfl, Except.ok.inj h⟩, fun ⟨_, ha, h⟩ => Except.ok.inj ha ▸ h ▸ rfl⟩

/-- An authority that is read is as it is kept. -/
theorem Authority.written_of_ofText {scheme : String} {cs rest : List Char} {isLast : Bool}
    {a : Authority} (h : Authority.ofText idna scheme cs isLast = .ok (a, rest)) :
    Authority.Written idna scheme a := by
  rw [Authority.ofText_eq] at h
  obtain ⟨host, hhost, h⟩ := bind_eq_ok.1 h
  have huser := UserInfo.written_splitUser cs
  split at h
  next hname =>
    split at h
    next hnone =>
      obtain ⟨rfl, -⟩ := Prod.mk.inj (Except.ok.inj h)
      refine ⟨huser, nofun, fun _ => ⟨?_, ?_, rfl⟩, nofun⟩
      · rw [← Bool.not_eq_true]
        intro hweb
        rw [hweb] at hhost
        exact (Host.written_of_ofWebText hhost).2 hname
      · rw [Bool.and_eq_true, Bool.and_eq_true] at hnone
        exact hnone.1.1
    · cases h
  next hname =>
    obtain ⟨⟨port, after⟩, hport, h⟩ := map_eq_ok.1 h
    obtain ⟨rfl, -⟩ := Prod.mk.inj h
    refine ⟨huser, fun h hh => ?_, nofun, of_readPort hport⟩
    obtain rfl := Option.some.inj hh
    exact ⟨Host.written_of_ofText hhost, hname⟩

theorem UserInfo.eq_of_isNone {user : UserInfo} (h : user.isNone = true) : user = ⟨"", none⟩ := by
  obtain ⟨username, password⟩ := user
  rw [UserInfo.isNone, Bool.and_eq_true] at h
  obtain rfl : username = "" := String.isEmpty_iff.1 h.1
  obtain rfl : password = none := Option.isNone_iff_eq_none.1 h.2
  rfl

/-- An authority that is written is read again, with nothing left of the text. -/
theorem Authority.ofText_again {scheme : String} {a : Authority} (h : a.Written idna scheme)
    (isLast : Bool) : Authority.ofText idna scheme a.render isLast = .ok (a, []) := by
  have hat {cs : List Char} (hcs : ∀ c ∈ cs, isInner c = true) : '@' ∉ cs := fun hmem =>
    absurd (hcs _ hmem) (by decide)
  obtain ⟨user, host, port⟩ := a
  cases host with
  | none =>
      obtain ⟨hweb, huser, hport⟩ := h.hostless rfl
      dsimp only at huser hport
      rw [UserInfo.eq_of_isNone huser, hport, Authority.ofText_eq, hweb]
      cases isLast <;> rfl
  | some host =>
      obtain ⟨hhost, hname⟩ := h.host host rfl
      cases port with
      | none =>
          have huser := splitUser_again h.user host.render (hat hhost.inner)
          show Authority.ofText idna scheme (user.render ++ host.render ++ []) isLast = _
          rw [List.append_nil, Authority.ofText_eq, huser, hhost.split.1]
          dsimp only
          rw [hhost.again]
          show (if host = .name "" then _ else _) = _
          rw [if_neg hname]
          rfl
      | some port =>
          have hdigits : ∀ c ∈ host.render ++ ':' :: Host.natText port, isInner c = true := by
            intro c hc
            rcases List.mem_append.1 hc with hc | hc
            · exact hhost.inner c hc
            rcases List.mem_cons.1 hc with rfl | hc
            · decide
            · exact (Host.mem_natText hc).1
          have huser := splitUser_again h.user _ (hat hdigits)
          obtain ⟨hbound, hdefault⟩ := h.port port rfl
          show Authority.ofText idna scheme (user.render ++ host.render ++ ':' :: Host.natText port)
            isLast = _
          rw [List.append_assoc, Authority.ofText_eq, huser, hhost.split.2]
          dsimp only
          rw [hhost.again]
          show (if host = .name "" then _ else _) = _
          rw [if_neg hname, List.tail_cons, readPort_natText hbound hdefault]
          rfl

/-- Whether a character can stand in an authority: it does not end it and is not dropped around a
text. -/
def StaysInside (c : Char) : Prop := endsAuthority true c = false ∧ isPadding c = false

theorem isSkipped_of_isPadding {c : Char} (h : isPadding c = false) : isSkipped c = false := by
  have hne (d : Char) (hd : isPadding d = true) : (c == d) = false := by
    refine beq_false_of_ne ?_
    rintro rfl
    exact Bool.noConfusion (h.symm.trans hd)
  rw [isSkipped, hne '\t' (by decide), hne '\n' (by decide), hne '\r' (by decide)]
  rfl

theorem staysInside_of_isInner {c : Char} (h : isInner c = true) : StaysInside c := by
  rw [isInner, Bool.and_eq_true, Bool.and_eq_true, Bool.not_eq_true', Bool.not_eq_true'] at h
  exact ⟨h.1.1, h.2⟩

/-- Whether a character has no meaning for the reading of what stands before the query. -/
def Silent (c : Char) : Prop := isPadding c = false ∧ c ≠ '?' ∧ c ≠ '#'

theorem silent_of_staysInside {c : Char} (h : StaysInside c) : Silent c := by
  have hends := h.1
  simp only [endsAuthority, Bool.or_eq_false_iff, beq_eq_false_iff_ne] at hends
  exact ⟨h.2, hends.1.2, hends.2⟩

theorem UserInfo.Written.inside {user : UserInfo} (h : user.Written) :
    ∀ c ∈ user.render, StaysInside c := by
  have hcolon : StaysInside ':' := by unfold StaysInside; decide
  have hat : StaysInside '@' := by unfold StaysInside; decide
  have hname {c : Char} (hc : c ∈ user.username.toList) : StaysInside c :=
    staysInside_of_isInner (isInner_of_not_inUserInfo (h.username c hc)).1
  intro c hc
  rw [UserInfo.render] at hc
  split at hc
  next p hp =>
    have hpassword {c : Char} (hc : c ∈ p.toList) : StaysInside c :=
      staysInside_of_isInner (isInner_of_not_inUserInfo ((h.password p hp).2 c hc)).1
    simp only [List.mem_append, List.mem_cons, List.not_mem_nil, or_false] at hc
    rcases hc with (hc | rfl | hc) | rfl
    · exact hname hc
    · exact hcolon
    · exact hpassword hc
    · exact hat
  · split at hc
    · cases hc
    · rcases List.mem_append.1 hc with hc | hc
      · exact hname hc
      · exact List.mem_singleton.1 hc ▸ hat

theorem Authority.Written.inside {scheme : String} {a : Authority} (h : a.Written idna scheme) :
    ∀ c ∈ a.render, StaysInside c := by
  obtain ⟨user, host, port⟩ := a
  intro c hc
  cases host with
  | none => cases hc
  | some host =>
      rcases List.mem_append.1 hc with hc | hc
      · rcases List.mem_append.1 hc with hc | hc
        · exact h.user.inside c hc
        · exact staysInside_of_isInner ((h.host host rfl).1.inner c hc)
      · cases port with
        | none => cases hc
        | some port =>
            rcases List.mem_cons.1 hc with rfl | hc
            · unfold StaysInside
              decide
            · exact staysInside_of_isInner (Host.mem_natText hc).1

end Url

end HmcClient
