import CedarSpec.IPAddrText

/-! The texts of IPv6 networks are read back, except those of IPv4-mapped addresses, which no
constructor accepts. -/

namespace CedarSpec.Datatypes

open Text Extension Extension.IPAddr

/-! ## IPv6 segments -/

theorem mk_segments (a : IPv6Addr) :
    IPv6Addr.mk ((a >>> 112).setWidth 16) ((a >>> 96).setWidth 16) ((a >>> 80).setWidth 16)
      ((a >>> 64).setWidth 16) ((a >>> 48).setWidth 16) ((a >>> 32).setWidth 16)
      ((a >>> 16).setWidth 16) (a.setWidth 16) = a := by
  apply BitVec.eq_of_toNat_eq
  have h : a.toNat < 2 ^ 128 := a.isLt
  simp only [IPv6Addr.mk, toNat_append_eq, BitVec.toNat_setWidth, BitVec.toNat_ushiftRight,
    Nat.shiftRight_eq_div_pow]
  omega

def hex (seg : BitVec 16) : List Char := Nat.toDigits 16 seg.toNat

theorem digitChar_hex {d : ℕ} (hd : d < 16) :
    isHexDigit d.digitChar = true ∧ toHexNat d.digitChar = d ∧ d.digitChar ≠ ':' ∧
      d.digitChar ≠ '/' ∧ d.digitChar ≠ '.' := by
  interval_cases d <;> decide

theorem hex_digit {seg : BitVec 16} {c : Char} (h : c ∈ hex seg) :
    isHexDigit c = true ∧ c ≠ ':' ∧ c ≠ '/' ∧ c ≠ '.' := by
  obtain ⟨d, hd, rfl⟩ := mem_toDigits (by omega) h
  obtain ⟨hhex, -, hne⟩ := digitChar_hex hd
  exact ⟨hhex, hne⟩

theorem hex_ne_nil (seg : BitVec 16) : hex seg ≠ [] := Nat.toDigits_ne_nil

theorem parseNumV6_hex (seg : BitVec 16) : parseNumV6 (hex seg) = some seg := by
  have hlt := seg.isLt
  have hle : seg.toNat ≤ 0xffff := by omega
  have hlen : (hex seg).length ≤ 4 :=
    (Nat.length_toDigits_le_iff (by omega) (by omega)).mpr (by omega)
  have hall : (hex seg).all isHexDigit = true := by
    simpa using fun c hc => (hex_digit hc).1
  have hval : (hex seg).foldl (fun n c => n * 16 + toHexNat c) 0 = seg.toNat :=
    foldl_toDigits (by omega) toHexNat fun d hd => (digitChar_hex hd).2.1
  rw [parseNumV6, if_pos ⟨Nat.length_toDigits_pos, hlen, hall⟩, hval, if_pos hle,
    BitVec.ofNat_toNat, BitVec.setWidth_eq]

theorem fmtSubslice_eq (segs : List (BitVec 16)) :
    fmtSubslice segs = [':'].intercalate (segs.map hex) := by
  cases segs with
  | nil => rfl
  | cons first tail =>
    rw [fmtSubslice]
    induction tail generalizing first with
    | nil => simp [hex]
    | cons second tail ih =>
      rw [List.flatMap_cons, List.cons_append, ih second]
      simp [List.intercalate_cons_cons, hex]

theorem mapM_parseNumV6 (segs : List (BitVec 16)) :
    (segs.map hex).mapM parseNumV6 = some segs := by
  induction segs with
  | nil => rfl
  | cons seg segs ih => simp [parseNumV6_hex, ih]

theorem parseNumSegsV6_fmtSubslice (segs : List (BitVec 16)) :
    parseNumSegsV6 (fmtSubslice segs) = some segs := by
  cases segs with
  | nil => rfl
  | cons first tail =>
    have hne : (fmtSubslice (first :: tail)).isEmpty = false := by simp [fmtSubslice]
    have hsep : ∀ w ∈ (first :: tail).map hex, ':' ∉ w := by
      intro w hw hc
      obtain ⟨seg, -, rfl⟩ := List.mem_map.mp hw
      exact (hex_digit hc).2.1 rfl
    rw [parseNumSegsV6, hne, if_neg (by simp), fmtSubslice_eq,
      splitOnP_intercalate (by simp) hsep, mapM_parseNumV6]

theorem spaced_fmtSubslice (segs : List (BitVec 16)) : Spaced ':' (fmtSubslice segs) := by
  rw [fmtSubslice_eq]
  refine spaced_intercalate (fun w hw => ?_) fun w hw hc => ?_
  · obtain ⟨seg, -, rfl⟩ := List.mem_map.mp hw
    exact hex_ne_nil seg
  · obtain ⟨seg, -, rfl⟩ := List.mem_map.mp hw
    exact (hex_digit hc).2.1 rfl

theorem mem_fmtSubslice {segs : List (BitVec 16)} {c : Char} (h : c ∈ fmtSubslice segs) :
    c ≠ '/' ∧ c ≠ '.' := by
  cases segs with
  | nil => simp [fmtSubslice] at h
  | cons first tail =>
    obtain h | h := List.mem_append.mp h
    · exact (hex_digit h).2.2
    · obtain ⟨seg, -, h⟩ := List.mem_flatMap.mp h
      obtain rfl | h := List.mem_cons.mp h
      · decide
      · exact (hex_digit h).2.2

/-! ## The zeros left out -/

/-- All segments of a span are zero. -/
def ZeroRun (segs : List (BitVec 16)) (span : Span) : Prop :=
  ∀ i, span.start ≤ i → i < span.start + span.len → segs[i]? = some 0

/-- Before segment `k` is scanned: both runs are zero, and the current one ends at `k`. -/
structure Scanned (segs : List (BitVec 16)) (k : ℕ) (scan : Scan) : Prop where
  longest : ZeroRun segs scan.longest
  current : ZeroRun segs scan.current
  ends : scan.current.len ≠ 0 → scan.current.start + scan.current.len = k

variable {segs : List (BitVec 16)} {k : ℕ} {scan : Scan}

theorem zeroRun_empty : ZeroRun segs {} := by
  intro i hle hlt
  exact absurd hlt (by simp)

theorem Scanned.next {seg : BitVec 16} (h : Scanned segs k scan) (hk : segs[k]? = some seg) :
    Scanned segs (k + 1) (scan.next (seg, k)) := by
  by_cases hz : seg = 0
  · have hrun : ZeroRun segs ⟨if scan.current.len = 0 then k else scan.current.start,
        scan.current.len + 1⟩ := by
      intro i hle hlt
      by_cases hi : i = k
      · rw [hi, hk, hz]
      · by_cases hlen : scan.current.len = 0
        · simp only [hlen, if_pos] at hle hlt
          omega
        · have hends := h.ends hlen
          simp only [hlen, if_false] at hle hlt
          exact h.current i hle (by omega)
    have hends : (if scan.current.len = 0 then k else scan.current.start) +
        (scan.current.len + 1) = k + 1 := by
      by_cases hlen : scan.current.len = 0
      · simp [hlen]
      · have hends := h.ends hlen
        rw [if_neg hlen]
        omega
    rw [Scan.next, if_pos hz]
    refine ⟨?_, hrun, fun _ => hends⟩
    dsimp only
    split
    · exact hrun
    · exact h.longest
  · rw [Scan.next, if_neg hz]
    exact ⟨h.longest, zeroRun_empty, fun hne => absurd rfl hne⟩

theorem Scanned.foldl {l : List (BitVec 16)} (h : Scanned segs k scan) (hl : l = segs.drop k) :
    ∃ m, Scanned segs m ((l.zipIdx k).foldl Scan.next scan) := by
  induction l generalizing k scan with
  | nil => exact ⟨k, h⟩
  | cons seg l ih =>
    have hk : segs[k]? = some seg := by
      rw [← List.head?_drop, ← hl]
      rfl
    have hdrop : l = segs.drop (k + 1) := by
      rw [← List.tail_drop, ← hl]
      rfl
    exact ih (h.next hk) hdrop

theorem zeroRun_longestZeroes (segs : List (BitVec 16)) : ZeroRun segs (longestZeroes segs) := by
  have h : Scanned segs 0 {} := ⟨zeroRun_empty, zeroRun_empty, fun hne => absurd rfl hne⟩
  obtain ⟨m, hm⟩ := h.foldl (l := segs) rfl
  exact hm.longest

/-- Zeros put back where a run of zeros was left out. -/
theorem ZeroRun.refill {span : Span} (h : ZeroRun segs span) (hlen : 0 < span.len) :
    span.start + span.len ≤ segs.length ∧
      segs.take span.start ++ List.replicate span.len 0 ++ segs.drop (span.start + span.len) =
        segs := by
  have hlast := h (span.start + span.len - 1) (by omega) (by omega)
  have hle : span.start + span.len ≤ segs.length := by
    obtain ⟨hlt, -⟩ := List.getElem?_eq_some_iff.mp hlast
    omega
  have hmid : (segs.drop span.start).take span.len = List.replicate span.len 0 := by
    refine List.ext_getElem? fun i => ?_
    by_cases hi : i < span.len
    · rw [List.getElem?_take_of_lt hi, List.getElem?_drop, h _ (by omega) (by omega),
        List.getElem?_replicate_of_lt hi]
    · rw [List.getElem?_eq_none (by simp; omega), List.getElem?_eq_none (by simpa using hi)]
  refine ⟨hle, ?_⟩
  rw [← hmid, List.append_assoc, ← List.drop_drop, List.take_append_drop,
    List.take_append_drop]

/-! ## IPv6 -/

theorem length_segments (addr : BitVec 128) : (segments addr).length = 8 := rfl

theorem expandSegsV6_displayIpv6 {addr : IPv6Addr} (h : toIpv4Mapped addr = none) :
    expandSegsV6 (displayIpv6 addr) = some (segments addr) := by
  have hread := parseNumSegsV6_fmtSubslice
  obtain ⟨zeroes, hz⟩ : ∃ z, z = longestZeroes (segments addr) := ⟨_, rfl⟩
  simp only [displayIpv6, h, ← hz]
  by_cases hlen : zeroes.len > 1
  · have hrun : ZeroRun (segments addr) zeroes := hz ▸ zeroRun_longestZeroes (segments addr)
    obtain ⟨hle, hrefill⟩ := hrun.refill (by omega)
    have hcount : 8 - (zeroes.start + (8 - (zeroes.start + zeroes.len))) = zeroes.len := by
      rw [length_segments] at hle
      omega
    have hlt : zeroes.start + (8 - (zeroes.start + zeroes.len)) < 8 := by
      rw [length_segments] at hle
      omega
    have hstart : min zeroes.start 8 = zeroes.start := by
      rw [length_segments] at hle
      omega
    rw [if_pos hlen, expandSegsV6, splitOn_spaced_append (spaced_fmtSubslice _)
      (spaced_fmtSubslice _)]
    simp only [hread, Option.bind_eq_bind, Option.bind_some, List.length_take, List.length_drop,
      length_segments, hstart, hcount, if_pos hlt, hrefill]
  · rw [if_neg hlen, expandSegsV6, splitOn_spaced (spaced_fmtSubslice _)]
    exact hread _

theorem parseSegsV6_displayIpv6 {addr : IPv6Addr} (h : toIpv4Mapped addr = none) :
    parseSegsV6 (displayIpv6 addr) = some addr := by
  rw [parseSegsV6, expandSegsV6_displayIpv6 h]
  exact congrArg some (mk_segments addr)

theorem mem_displayIpv6 {addr : IPv6Addr} (h : toIpv4Mapped addr = none) {c : Char}
    (hc : c ∈ displayIpv6 addr) : c ≠ '/' ∧ c ≠ '.' := by
  simp only [displayIpv6, h] at hc
  split at hc
  · obtain hc | hc := List.mem_append.mp hc
    · exact mem_fmtSubslice hc
    · simp only [List.mem_cons] at hc
      obtain rfl | rfl | hc := hc
      · decide
      · decide
      · exact mem_fmtSubslice hc
  · exact mem_fmtSubslice hc

theorem notMem_displayIpv4 {c : Char} (hc : c.isDigit = false) (hdot : c ≠ '.')
    (addr : BitVec 32) : c ∉ displayIpv4 addr := notMem_dotted hc hdot _ _ _ _

/-- Text with a segment longer than three characters before the first point is no IPv4 address. -/
theorem parseSegsV4_none {s t : List Char} (hs : '.' ∉ s) (hlen : 3 < s.length) :
    parseSegsV4 (s ++ '.' :: t) = none := by
  have hnum : parseNumV4 s = none := by
    rw [parseNumV4, if_neg (by omega)]
  rw [parseSegsV4, splitOnP_append hs]
  split
  · next he =>
    obtain ⟨rfl, -⟩ := List.cons.inj he
    rw [hnum]
    rfl
  · rfl

theorem parseSegsV4_no_point {s : List Char} (hs : '.' ∉ s) : parseSegsV4 s = none := by
  rw [parseSegsV4, splitOnP_single hs]

theorem ip_displayIpv6 {cidr : CIDR v6Width} (h : toIpv4Mapped cidr.addr = none) :
    ip (displayIpv6 cidr.addr ++ '/' :: Nat.toDigits 10 cidr.pre.toNat) = some (.V6 cidr) := by
  have hslash : '/' ∉ displayIpv6 cidr.addr := fun hc => (mem_displayIpv6 h hc).1 rfl
  have hdot : '.' ∉ displayIpv6 cidr.addr := fun hc => (mem_displayIpv6 h hc).2 rfl
  have hsplit := splitOnP_append hslash (Nat.toDigits 10 cidr.pre.toNat)
  rw [splitOnP_single (notMem_toDigits rfl _)] at hsplit
  have hv4 : parseIPv4Net (displayIpv6 cidr.addr ++ '/' :: Nat.toDigits 10 cidr.pre.toNat) =
      none := by
    rw [parseIPv4Net, hsplit]
    simp [parseSegsV4_no_point hdot]
  have hv6 : parseIPv6Net (displayIpv6 cidr.addr ++ '/' :: Nat.toDigits 10 cidr.pre.toNat) =
      some (.V6 cidr) := by
    rw [parseIPv6Net, hsplit]
    simp only [parsePrefix_toDigits cidr.pre 3 (by omega) (by decide),
      parseSegsV6_displayIpv6 h, IPNetPrefix.ofNat_toNat, Option.bind_eq_bind, Option.bind_some]
  simp [ip, hv4, hv6]

theorem length_displayIpv4 (addr : BitVec 32) : 7 ≤ (displayIpv4 addr).length := by
  have hpos : ∀ n, 0 < (Nat.toDigits 10 n).length := fun n => Nat.length_toDigits_pos
  have h₀ := hpos ((addr >>> 24).setWidth 8).toNat
  have h₁ := hpos ((addr >>> 16).setWidth 8).toNat
  have h₂ := hpos ((addr >>> 8).setWidth 8).toNat
  have h₃ := hpos (addr.setWidth 8).toNat
  simp only [displayIpv4, dotted, List.length_append, List.length_cons]
  omega

theorem ip_ipv4Mapped {addr : IPv6Addr} {ipv4 : BitVec 32} (h : toIpv4Mapped addr = some ipv4)
    (n : ℕ) : ip (displayIpv6 addr ++ '/' :: Nat.toDigits 10 n) = none := by
  have hdisplay : displayIpv6 addr = ':' :: ':' :: (['f', 'f', 'f', 'f'] ++ ':' :: displayIpv4 ipv4) := by
    rw [displayIpv6, h]
    rfl
  have hslash : '/' ∉ displayIpv6 addr := by
    rw [hdisplay]
    simpa using notMem_displayIpv4 (c := '/') rfl (by decide) ipv4
  have hsplit := splitOnP_append hslash (Nat.toDigits 10 n)
  rw [splitOnP_single (notMem_toDigits rfl _)] at hsplit
  have hv4 : parseSegsV4 (displayIpv6 addr) = none := by
    rw [hdisplay]
    exact parseSegsV4_none (s := [':', ':', 'f', 'f', 'f', 'f', ':'] ++
      Nat.toDigits 10 ((ipv4 >>> 24).setWidth 8).toNat)
      (by simpa using notMem_toDigits (c := '.') rfl _) (by simp)
  have hnum : parseNumV6 (displayIpv4 ipv4) = none := by
    rw [parseNumV6, if_neg]
    have hlen := length_displayIpv4 ipv4
    omega
  have hv6 : parseSegsV6 (displayIpv6 addr) = none := by
    have hcolon : ':' ∉ displayIpv4 ipv4 := notMem_displayIpv4 rfl (by decide) ipv4
    have hne : displayIpv4 ipv4 ≠ [] := by
      have hlen := length_displayIpv4 ipv4
      intro he
      simp [he] at hlen
    have hspaced : Spaced ':' ([':'].intercalate [['f', 'f', 'f', 'f'], displayIpv4 ipv4]) :=
      spaced_intercalate (by simp [hne]) (by simp [hcolon])
    have hsegs : parseNumSegsV6 (['f', 'f', 'f', 'f'] ++ ':' :: displayIpv4 ipv4) = none := by
      rw [parseNumSegsV6, splitOnP_append (by decide), splitOnP_single hcolon]
      simp [hnum]
    have hsplit := splitOn_spaced_append (s := []) trivial hspaced
    simp only [List.intercalate_cons_cons, List.intercalate_singleton, List.append_assoc,
      List.singleton_append, List.nil_append] at hsplit
    have hempty : parseNumSegsV6 [] = some [] := rfl
    simp only [parseSegsV6, expandSegsV6, hdisplay, hsplit, hsegs, hempty, Option.bind_eq_bind,
      Option.bind_some, Option.bind_none]
  simp [ip, parseIPv4Net, parseIPv6Net, hsplit, hv4, hv6]

end CedarSpec.Datatypes
