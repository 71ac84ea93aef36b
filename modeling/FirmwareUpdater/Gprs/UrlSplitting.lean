import FirmwareUpdater.Gprs.GsmHttpClient

/-!
# Splitting a URL

What `separar` makes of a URL, against the form a URL has and against what
`url::fetchable` says. The two read the scheme differently, and `separar` takes
whatever `atoi` finds behind the colon for the port and whatever fits of the
path.
-/

namespace FirmwareUpdater

open Library.MaximalRuns

/-- A target is its host, its path and its port. -/
theorem Alvo.eq_iff {alvo other : Alvo} :
    alvo = other ↔ alvo.host.text.bytes = other.host.text.bytes ∧
      alvo.path.text.bytes = other.path.text.bytes ∧ alvo.port = other.port := by
  obtain ⟨⟨⟨host, hhost⟩, hfits⟩, ⟨⟨path, hpath⟩, hpathfits⟩, port⟩ := alvo
  obtain ⟨⟨⟨host', hhost'⟩, hfits'⟩, ⟨⟨path', hpath'⟩, hpathfits'⟩, port'⟩ := other
  simp

namespace GsmHttpClient

/-! ## The parts of a URL -/

/-- What stands behind `http://`. -/
def afterScheme (u : CString) : CString := u.drop 7

/-- Its bytes before the path. -/
def authority (u : CString) : List UInt8 := (afterScheme u).bytes.takeWhile (· ≠ 47)

/-- Its bytes from the first slash on. -/
def pathText (u : CString) : List UInt8 := (afterScheme u).bytes.dropWhile (· ≠ 47)

/-- The authority before the first colon. -/
def hostText (u : CString) : List UInt8 := (authority u).takeWhile (· ≠ 58)

/-- The authority behind that colon, where there is one. -/
def portText (u : CString) : Option (List UInt8) :=
  match (authority u).dropWhile (· ≠ 58) with
  | [] => none
  | _ :: text => some text

/-- What `separar` reads there as the port. -/
def portRead (u : CString) : UInt16 :=
  if (portText u).isSome then UInt16.ofInt (atoi ((afterScheme u).drop ((hostText u).length + 1)))
  else 80

/-- The number `atoi` finds behind the colon, if there is one, is not a multiple of 65536. -/
def PortNonzero (u : CString) : Prop :=
  (portText u).isSome → ¬(65536 : Int) ∣ atoi ((afterScheme u).drop ((hostText u).length + 1))

/-- The host is there and fits. -/
def HostFits (u : CString) : Prop := hostText u ≠ [] ∧ (hostText u).length ≤ 95

/-- The port is a decimal number that is a port. -/
def PortWellFormed (u : CString) : Prop :=
  ∀ text ∈ portText u, text ≠ [] ∧ (∀ b ∈ text, isdigit b) ∧ 1 ≤ decimal text ∧
    decimal text ≤ 65535

/-- `separar` takes a URL in lower-case `http://` apart, the path cut to what can be stored. -/
theorem separar_eq_some_iff {u : CString} (hlead : (ascii "http://").isPrefixOf u.bytes)
    (alvo : Alvo) :
    separar (some u) = some alvo ↔
      HostFits u ∧ portRead u ≠ 0 ∧ alvo.host.text.bytes = hostText u ∧ alvo.port = portRead u ∧
        alvo.path.text.bytes = (if pathText u = [] then [47] else pathText u).take 191 := by
  obtain ⟨rest, hrest⟩ := List.isPrefixOf_iff_prefix.mp hlead
  have hscheme : strstr u (ascii "://") = some (u.drop 4) := by
    have hfirst : (List.range (u.length + 1)).find?
        (fun i => (ascii "://").isPrefixOf (u.bytes.drop i)) = some 4 := by
      rw [List.find?_range_eq_some, CString.length, ← hrest]
      refine ⟨by simp [ascii], by simp [ascii], ?_⟩
      intro j hj
      have hcases : j = 0 ∨ j = 1 ∨ j = 2 ∨ j = 3 := by omega
      rcases hcases with rfl | rfl | rfl | rfl <;> rfl
    rw [strstr, hfirst]
  have hafter : (u.drop 4).drop 3 = afterScheme u := by
    rw [CString.eq_iff]
    exact List.drop_drop
  -- The path starts at the first slash.
  have hpath : (((afterScheme u).find (ascii "/")).getD (.ofBytes [47])).bytes =
      (if pathText u = [] then [47] else pathText u) ∧
      (afterScheme u).length - ((afterScheme u).find (ascii "/")).elim 0 CString.length =
        (authority u).length := by
    have hsplit := List.takeWhile_append_dropWhile (p := (· ≠ 47)) (l := (afterScheme u).bytes)
    have hlength := congrArg List.length hsplit
    rw [List.length_append] at hlength
    have hslash : ascii "/" = [47] := by decide
    rcases (afterScheme u).find_byte 47 with ⟨hnone, hempty⟩ | ⟨found, hsome, hfound, hne⟩
    · rw [hslash, hnone]
      have hpath : pathText u = [] := hempty
      rw [hempty, List.length_nil, Nat.add_zero] at hlength
      exact ⟨by rw [if_pos hpath]; rfl, hlength.symm⟩
    · rw [hslash, hsome]
      have hpath : pathText u ≠ [] := fun h => hne (hfound.trans h)
      refine ⟨by rw [if_neg hpath]; exact hfound, ?_⟩
      show (afterScheme u).bytes.length - found.bytes.length = (authority u).length
      rw [hfound, ← hlength]
      exact Nat.add_sub_cancel _ _
  have htake : (afterScheme u).bytes.take (authority u).length = authority u :=
    List.prefix_iff_eq_take.mp (List.takeWhile_prefix _) |>.symm
  have hhost : (authority u).takeWhile (fun x => decide (x ≠ 58)) = hostText u := rfl
  have hport : (if (hostText u).length < (authority u).length then
      UInt16.ofInt (atoi ((afterScheme u).drop ((hostText u).length + 1))) else 80) =
        portRead u := by
    have hsplit := List.takeWhile_append_dropWhile (p := (· ≠ 58)) (l := authority u)
    have hlength := congrArg List.length hsplit
    rw [List.length_append, hhost] at hlength
    unfold portRead portText
    cases hcolon : (authority u).dropWhile (fun x => decide (x ≠ 58)) with
    | nil =>
        rw [hcolon, List.length_nil] at hlength
        rw [if_neg (by omega)]
        rfl
    | cons colon text =>
        rw [hcolon, List.length_cons] at hlength
        rw [if_pos (by omega)]
        rfl
  simp only [separar, Option.bind_eq_bind, Option.bind_some, hscheme, hafter, hlead, hpath.2,
    htake, hhost, hport]
  unfold HostFits
  by_cases hempty : hostText u = []
  · simp [hempty, guard]
  by_cases hlong : (hostText u).length < 96
  · by_cases hzero : portRead u = 0
    · simp [hempty, hlong, hzero, guard]
    · simp only [hempty, hlong, hzero, guard, ne_eq, List.length_eq_zero_iff, not_false_eq_true,
        if_true, dif_pos, Option.pure_def, Option.bind_some, true_and]
      rw [Option.some_inj, eq_comm, Alvo.eq_iff]
      show alvo.host.text.bytes = hostText u ∧ alvo.path.text.bytes = List.take 191
        (((afterScheme u).find (ascii "/")).getD (.ofBytes [47])).bytes ∧
          alvo.port = portRead u ↔ _
      rw [hpath.1]
      constructor
      · rintro ⟨hh, hp, hport⟩
        exact ⟨by omega, hh, hport, hp⟩
      · rintro ⟨-, hh, hport, hp⟩
        exact ⟨hh, hp, hport⟩
  · simp [hempty, hlong, guard]
    omega

/-! ## The form of a URL -/

/-- Lower case keeps the terminator apart. -/
theorem tolower_ne_zero {b : UInt8} (h : b ≠ 0) : tolower b ≠ 0 := by
  unfold tolower
  split_ifs with hupper
  · intro hzero
    have hlow : 65 ≤ b.toNat := UInt8.le_iff_toNat_le.mp hupper.1
    have hhigh : b.toNat ≤ 90 := UInt8.le_iff_toNat_le.mp hupper.2
    have hsum := congrArg UInt8.toNat hzero
    rw [UInt8.toNat_add] at hsum
    simp only [UInt8.reduceToNat] at hsum
    omega
  · exact h

/-- A prefix is matched byte by byte, but for the case. -/
theorem startsWithNoCase_iff {s wanted : List UInt8} (hnul : 0 ∉ wanted) :
    Url.startsWithNoCase s wanted = true ↔
      (s.take wanted.length).map tolower = wanted.map tolower := by
  induction wanted generalizing s with
  | nil => simp [Url.startsWithNoCase]
  | cons b wanted ih =>
      have hmore := ih (s := s.tail) fun h => hnul (List.mem_cons_of_mem _ h)
      cases s with
      | nil =>
          have hb : tolower b ≠ 0 := tolower_ne_zero fun h => hnul (h ▸ List.mem_cons_self)
          have hzero : tolower 0 = 0 := by decide
          simp [Url.startsWithNoCase, hzero, hb.symm]
      | cons c s =>
          simp only [List.tail_cons] at hmore
          simp [Url.startsWithNoCase, hmore]

/-- The URL starts with `http://` in any case. -/
def IsHttp (u : CString) : Prop := (u.bytes.take 7).map tolower = ascii "http://"

/-- These are the URLs a link without TLS fetches. -/
theorem fetchable_iff (u : CString) : Url.fetchable (some u) false = true ↔ IsHttp u := by
  have hhttp : Url.startsWithNoCase u.bytes (ascii "http://") = true ↔ IsHttp u :=
    startsWithNoCase_iff (by decide)
  have hhttps := startsWithNoCase_iff (s := u.bytes) (by decide : 0 ∉ ascii "https://")
  unfold Url.fetchable Url.scheme
  by_cases hs : Url.startsWithNoCase u.bytes (ascii "https://") = true
  · have hnot : ¬IsHttp u := by
      intro h
      have height := congrArg (List.take 7) (hhttps.mp hs)
      rw [← List.map_take, List.take_take] at height
      exact absurd (h.symm.trans height) (by decide)
    simp [hs, hnot]
  · by_cases hh : IsHttp u
    · simp [hs, hhttp.mpr hh, hh]
    · simp [hs, hhttp, hh]

/-- A URL taken apart. -/
structure UrlParts where
  scheme : List UInt8
  host : List UInt8
  port : Option (List UInt8)
  path : List UInt8

namespace UrlParts

/-- The URL of its parts. -/
def bytes (x : UrlParts) : List UInt8 :=
  x.scheme ++ (ascii "://" ++ (x.host ++ ((x.port.elim [] fun text => 58 :: text) ++ x.path)))

/-- The parts have their form and can be stored. -/
structure Form (x : UrlParts) : Prop where
  scheme : 58 ∉ x.scheme
  host : x.host ≠ [] ∧ x.host.length ≤ 95 ∧ 47 ∉ x.host ∧ 58 ∉ x.host
  port : ∀ text ∈ x.port, text ≠ [] ∧ (∀ b ∈ text, isdigit b) ∧ 1 ≤ decimal text ∧
    decimal text ≤ 65535
  path : ∀ b ∈ x.path.head?, b = 47
  path_le : x.path.length ≤ 191

/-- The number of the port. -/
def portNumber (x : UrlParts) : UInt16 :=
  x.port.elim 80 fun text => UInt16.ofNat (decimal text)

end UrlParts

/-- Before the first colon of such a URL stand four bytes, and two slashes after it. -/
theorem IsHttp.bytes_eq {u : CString} (h : IsHttp u) :
    ∃ name, name.length = 4 ∧ 58 ∉ name ∧
      u.bytes = name ++ (ascii "://" ++ (afterScheme u).bytes) := by
  have hname : (u.bytes.take 4).map tolower = ascii "http" := by
    have hfour := congrArg (List.take 4) h
    rwa [← List.map_take, List.take_take] at hfour
  have hslashes : ((u.bytes.drop 4).take 3).map tolower = ascii "://" := by
    have hthree := congrArg (List.drop 4) h
    rwa [← List.map_drop, List.drop_take] at hthree
  have hmark : ∀ c b : UInt8, tolower c = b → b < 65 → c = b := by
    intro c b hc hb
    unfold tolower at hc
    split_ifs at hc with hupper
    · have hlow : 65 ≤ c.toNat := UInt8.le_iff_toNat_le.mp hupper.1
      have hhigh : c.toNat ≤ 90 := UInt8.le_iff_toNat_le.mp hupper.2
      have hbound : b.toNat < 65 := UInt8.lt_iff_toNat_lt.mp hb
      rw [← hc, UInt8.toNat_add] at hbound
      simp only [UInt8.reduceToNat] at hbound
      omega
    · exact hc
  have hmarks : (u.bytes.drop 4).take 3 = ascii "://" := by
    have hlen := congrArg List.length hslashes
    rw [List.length_map] at hlen
    obtain ⟨a, b, c, habc⟩ := List.length_eq_three.mp (hlen.trans (by decide))
    rw [habc] at hslashes ⊢
    have hall : tolower a = 58 ∧ tolower b = 47 ∧ tolower c = 47 := by
      simpa [ascii] using hslashes
    rw [hmark a 58 hall.1 (by decide), hmark b 47 hall.2.1 (by decide),
      hmark c 47 hall.2.2 (by decide)]
    decide
  refine ⟨u.bytes.take 4, ?_, ?_, ?_⟩
  · have hlen := congrArg List.length hname
    rw [List.length_map] at hlen
    exact hlen.trans (by decide)
  · intro hcolon
    have hmem := List.mem_map_of_mem (f := tolower) hcolon
    rw [hname] at hmem
    exact absurd hmem (by decide)
  · have hrest : (afterScheme u).bytes = (u.bytes.drop 4).drop 3 := by
      rw [List.drop_drop]
      rfl
    rw [← hmarks, hrest, List.take_append_drop, List.take_append_drop]

/-- What the parts of a fetchable URL are is decided by the URL. -/
theorem parts_unique {u : CString} (hhttp : IsHttp u) {x : UrlParts} (hx : x.Form)
    (hbytes : x.bytes = u.bytes) :
    hostText u = x.host ∧ portText u = x.port ∧ pathText u = x.path := by
  obtain ⟨hscheme, ⟨-, -, hslash, hcolon⟩, hport, hpath, -⟩ := hx
  obtain ⟨name, -, hname, hu⟩ := hhttp.bytes_eq
  have hafter : (afterScheme u).bytes =
      x.host ++ ((x.port.elim [] fun text => 58 :: text) ++ x.path) := by
    have hsame : x.scheme ++ (ascii "://" ++ (x.host ++
        ((x.port.elim [] fun text => 58 :: text) ++ x.path))) =
          name ++ (ascii "://" ++ (afterScheme u).bytes) := hbytes.trans hu
    have hfirst : ∀ {run rest : List UInt8}, 58 ∉ run →
        (run ++ (ascii "://" ++ rest)).dropWhile (· ≠ 58) = ascii "://" ++ rest := by
      intro run rest hrun
      refine (span_append (fun b hb => ?_) ?_).2
      · rw [decide_eq_true_eq]
        rintro rfl
        exact hrun hb
      · intro b hb
        have hb58 : b = 58 := by simpa [ascii] using hb.symm
        simp [hb58]
    have hdrop := congrArg (List.dropWhile (· ≠ 58)) hsame
    rw [hfirst hscheme, hfirst hname] at hdrop
    exact (List.append_cancel_left hdrop).symm
  have hportpart : ∀ b ∈ x.port.elim [] (fun text => 58 :: text), b ≠ 47 := by
    cases htext : x.port with
    | none => simp
    | some text =>
        have hdigits := (hport text htext).2.1
        intro b hb
        rcases List.mem_cons.mp hb with rfl | hb
        · decide
        · rintro rfl
          exact absurd (hdigits 47 hb) (by decide)
  have hsplit : authority u = x.host ++ (x.port.elim [] fun text => 58 :: text) ∧
      pathText u = x.path := by
    unfold authority pathText
    rw [hafter, ← List.append_assoc]
    refine span_append (fun b hb => ?_) fun b hb => by simp [hpath b hb]
    rw [decide_eq_true_eq]
    rcases List.mem_append.mp hb with hb | hb
    · rintro rfl
      exact hslash hb
    · exact hportpart b hb
  have hhost : (authority u).takeWhile (· ≠ 58) = x.host ∧
      (authority u).dropWhile (· ≠ 58) = x.port.elim [] fun text => 58 :: text := by
    rw [hsplit.1]
    refine span_append (fun b hb => ?_) ?_
    · rw [decide_eq_true_eq]
      rintro rfl
      exact hcolon hb
    · cases x.port <;> simp
  refine ⟨hhost.1, ?_, hsplit.2⟩
  rw [portText, hhost.2]
  cases x.port <;> rfl

/-- What stands behind the scheme is the host, the port and the path. -/
theorem afterScheme_eq (u : CString) :
    (afterScheme u).bytes =
      hostText u ++ (((portText u).elim [] fun text => 58 :: text) ++ pathText u) := by
  have hauthority : authority u ++ pathText u = (afterScheme u).bytes :=
    List.takeWhile_append_dropWhile
  have hsplit := List.takeWhile_append_dropWhile (p := (· ≠ 58)) (l := authority u)
  rw [← hauthority, ← List.append_assoc]
  congr 1
  unfold portText
  cases hcolon : (authority u).dropWhile (fun x => decide (x ≠ 58)) with
  | nil =>
      rw [hcolon] at hsplit
      exact hsplit.symm
  | cons colon text =>
      have hfirst := List.head?_dropWhile_not (fun x => decide (x ≠ 58)) (authority u)
      rw [hcolon] at hfirst hsplit
      have hcolon58 : colon = 58 := by simpa using hfirst
      rw [hcolon58] at hsplit
      exact hsplit.symm

/-- The path starts with a slash, where there is one. -/
theorem head_pathText (u : CString) : ∀ b ∈ (pathText u).head?, b = 47 := by
  intro b hb
  have hfirst := List.head?_dropWhile_not (fun x => decide (x ≠ 47)) (afterScheme u).bytes
  rw [← pathText, hb] at hfirst
  simpa using hfirst

/-- A fetchable URL has the form exactly if its own host, port and path do. -/
theorem exists_parts_iff {u : CString} (hhttp : IsHttp u) :
    (∃ x : UrlParts, x.bytes = u.bytes ∧ x.Form) ↔
      HostFits u ∧ PortWellFormed u ∧ (pathText u).length ≤ 191 := by
  constructor
  · rintro ⟨x, hbytes, hx⟩
    obtain ⟨hhost, hport, hpath⟩ := parts_unique hhttp hx hbytes
    unfold HostFits PortWellFormed
    rw [hhost, hport, hpath]
    exact ⟨⟨hx.host.1, hx.host.2.1⟩, hx.port, hx.path_le⟩
  · rintro ⟨hhost, hport, hpath⟩
    obtain ⟨name, -, hname, hu⟩ := hhttp.bytes_eq
    refine ⟨⟨name, hostText u, portText u, pathText u⟩, ?_, ?_⟩
    · rw [hu, afterScheme_eq]
      rfl
    · refine ⟨hname, ⟨hhost.1, hhost.2, ?_, ?_⟩, hport, head_pathText u, hpath⟩
      · intro hslash
        have hmem := (List.takeWhile_prefix _).mem hslash
        simpa using List.mem_takeWhile_imp hmem
      · intro hcolon
        simpa using List.mem_takeWhile_imp hcolon

/-- A port that is one is read as its number. -/
theorem portRead_eq {u : CString} (hport : PortWellFormed u) :
    portRead u = (portText u).elim 80 (fun text => UInt16.ofNat (decimal text)) ∧
      portRead u ≠ 0 := by
  have hafter := afterScheme_eq u
  unfold portRead
  cases htext : portText u with
  | none =>
      refine ⟨rfl, ?_⟩
      rw [if_neg (by simp)]
      decide
  | some text =>
      obtain ⟨hne, hdigits, hpos, hle⟩ := hport text htext
      rw [htext] at hafter
      have hbytes : ((afterScheme u).drop ((hostText u).length + 1)).bytes =
          [] ++ (text ++ pathText u) := by
        show (afterScheme u).bytes.drop ((hostText u).length + 1) = _
        rw [hafter, List.drop_append]
        simp
      have hend : ∀ b ∈ (pathText u).head?, ¬isdigit b := by
        intro b hb
        rw [head_pathText u b hb]
        decide
      have hatoi := atoi_digits hbytes (by simp) hne hdigits hend
      have hmin : min (decimal text : Int) longMax = decimal text := by
        unfold longMax
        omega
      have hcast : UInt16.ofInt (decimal text : Int) = UInt16.ofNat (decimal text) := by
        rw [UInt16.ofInt]
        congr 1
        omega
      rw [if_pos (by simp), hatoi, hmin, hcast]
      refine ⟨rfl, ?_⟩
      intro hzero
      have hnat := congrArg UInt16.toNat hzero
      rw [UInt16.toNat_ofNat_of_lt' (by show decimal text < 65536; omega)] at hnat
      simp only [UInt16.reduceToNat] at hnat
      omega

/-! ## What `separar` accepts -/

/-- `separar` accepts exactly the fetchable URLs of the form, and takes them apart without loss. -/
def Lossless (u : CString) : Prop :=
  ((separar (some u)).isSome ↔
    Url.fetchable (some u) false = true ∧ ∃ x : UrlParts, x.bytes = u.bytes ∧ x.Form) ∧
  ∀ (alvo : Alvo) (x : UrlParts), separar (some u) = some alvo → x.bytes = u.bytes → x.Form →
    alvo.host.text.bytes = x.host ∧ alvo.port = x.portNumber ∧
      alvo.path.text.bytes = if x.path = [] then [47] else x.path

/-- Another case of the scheme is refused. -/
theorem separar_none {u : CString} (h : ¬(ascii "http://").isPrefixOf u.bytes) :
    separar (some u) = none := by
  simp only [separar, Option.bind_eq_bind, Option.bind_some]
  cases strstr u (ascii "://") with
  | none => rfl
  | some p => simp [guard, h]

/-- In lower case `http://` is `http://`. -/
theorem isHttp_of_starts {u : CString} (h : (ascii "http://").isPrefixOf u.bytes) : IsHttp u := by
  obtain ⟨rest, hrest⟩ := List.isPrefixOf_iff_prefix.mp h
  rw [IsHttp, ← hrest]
  rfl

/-- `separar` accepts what has a host that fits and a port `atoi` does not read as a multiple of
65536. -/
theorem isSome_separar {u : CString} (h : (ascii "http://").isPrefixOf u.bytes) :
    (separar (some u)).isSome ↔ HostFits u ∧ portRead u ≠ 0 := by
  constructor
  · intro hsome
    obtain ⟨alvo, halvo⟩ := Option.isSome_iff_exists.mp hsome
    obtain ⟨hhost, hport, -⟩ := (separar_eq_some_iff h alvo).mp halvo
    exact ⟨hhost, hport⟩
  · rintro ⟨hhost, hport⟩
    have hmem : ∀ b ∈ hostText u, b ∈ u.bytes := by
      intro b hb
      exact List.mem_of_mem_drop
        ((List.takeWhile_prefix _).mem ((List.takeWhile_prefix _).mem hb))
    have hpathmem : ∀ b ∈ pathText u, b ∈ u.bytes := by
      intro b hb
      exact List.mem_of_mem_drop ((List.dropWhile_suffix _).mem hb)
    have hpath : 0 ∉ if pathText u = [] then [47] else pathText u := by
      split_ifs
      · decide
      · exact fun h => u.noNul (hpathmem 0 h)
    refine Option.isSome_iff_exists.mpr ⟨⟨⟨⟨hostText u, fun h => u.noNul (hmem 0 h)⟩, ?_⟩,
      .print (by decide) ⟨_, hpath⟩, portRead u⟩, ?_⟩
    · have hfits := hhost.2
      show (hostText u).length < 96
      omega
    · rw [separar_eq_some_iff h]
      exact ⟨hhost, hport, rfl, rfl, rfl⟩

/-- The port read is zero where the number is a multiple of 65536. -/
theorem portRead_ne_zero_iff (u : CString) : portRead u ≠ 0 ↔ PortNonzero u := by
  have hcast : ∀ value : Int, UInt16.ofInt value ≠ 0 ↔ ¬(65536 : Int) ∣ value := by
    intro value
    have hmod : (UInt16.ofInt value).toNat = (value % 65536).toNat := by
      rw [UInt16.ofInt, UInt16.toNat_ofNat']
      omega
    rw [Ne, ← UInt16.toNat_inj, hmod, UInt16.toNat_zero]
    omega
  unfold portRead PortNonzero
  cases (portText u).isSome with
  | false => simp
  | true => simpa using hcast _

/-- `separar` is lossless exactly on these URLs: in lower-case `http://`, one it accepts has a
port that is one, if any, and a path that can be stored; in another case of `http://`, the URL
does not have the form. -/
theorem lossless_iff (u : CString) :
    Lossless u ↔
      ((ascii "http://").isPrefixOf u.bytes = true → HostFits u → PortNonzero u →
        PortWellFormed u ∧ (pathText u).length ≤ 191) ∧
      (IsHttp u → (ascii "http://").isPrefixOf u.bytes = false →
        ¬(HostFits u ∧ PortWellFormed u ∧ (pathText u).length ≤ 191)) := by
  unfold Lossless
  rw [fetchable_iff, ← portRead_ne_zero_iff]
  constructor
  · rintro ⟨hiff, -⟩
    constructor
    · intro hlead hhost hport
      obtain ⟨hhttp, hparts⟩ := hiff.mp ((isSome_separar hlead).mpr ⟨hhost, hport⟩)
      exact ((exists_parts_iff hhttp).mp hparts).2
    · intro hhttp hlead hform
      have hsome := hiff.mpr ⟨hhttp, (exists_parts_iff hhttp).mpr hform⟩
      rw [separar_none (by simp [hlead])] at hsome
      cases hsome
  · rintro ⟨hlower, hother⟩
    cases hlead : (ascii "http://").isPrefixOf u.bytes with
    | false =>
        rw [separar_none (by simp [hlead])]
        refine ⟨iff_of_false (by simp) ?_, ?_⟩
        · rintro ⟨hhttp, hparts⟩
          exact hother hhttp hlead ((exists_parts_iff hhttp).mp hparts)
        · intro alvo x halvo
          cases halvo
    | true =>
        have hhttp := isHttp_of_starts hlead
        constructor
        · rw [isSome_separar hlead, exists_parts_iff hhttp]
          constructor
          · rintro ⟨hhost, hport⟩
            exact ⟨hhttp, hhost, hlower hlead hhost hport⟩
          · rintro ⟨-, hhost, hport, -⟩
            exact ⟨hhost, (portRead_eq hport).2⟩
        · intro alvo x halvo hbytes hx
          obtain ⟨hhost, hport, hpath⟩ := parts_unique hhttp hx hbytes
          obtain ⟨-, -, hh, hp, hpt⟩ := (separar_eq_some_iff hlead alvo).mp halvo
          have hwell : PortWellFormed u := by
            rw [PortWellFormed, hport]
            exact hx.port
          refine ⟨hh.trans hhost, ?_, ?_⟩
          · rw [hp, (portRead_eq hwell).1, hport]
            rfl
          · have hle := hx.path_le
            rw [hpt, hpath]
            refine List.take_of_length_le ?_
            split_ifs
            · decide
            · exact hle

/-- A download link with a path of 201 bytes is taken for one with the first 191 of them. -/
theorem lossless_signed_path :
    ∃ u : CString, u.bytes = ascii "http://h/" ++ List.replicate 200 97 ∧
      (separar (some u)).any (fun alvo => alvo.path.text.length = 191) = true ∧ ¬Lossless u := by
  refine ⟨⟨ascii "http://h/" ++ List.replicate 200 97, by decide +kernel⟩, rfl,
    by decide +kernel, ?_⟩
  rintro ⟨hiff, -⟩
  have hparts := (hiff.mp (by decide +kernel)).2
  have hpath := ((exists_parts_iff (isHttp_of_starts (by decide +kernel))).mp hparts).2.2
  exact absurd hpath (by decide +kernel)

end GsmHttpClient
end FirmwareUpdater
