import Freeclawdia.Tools.Wasm.Allowlist

/-!
# `Correctness.WasmAllowlist` — what an allowed request looks like

The three matches (host at a label boundary, method, path prefix) are read off the code one by one. The path needs
an argument: a prefix check is only as good as the normal form it is made on. What the check sees is the decoded path
with every dot segment and inner empty segment resolved, and no escape of the URL's path hides a separator from it,
since a byte below 128 in UTF-8 is always that character.
-/

namespace Freeclawdia.WasmAllowlist

open Rust

/-! ## Hosts and methods -/

/-- The pattern is the host, or `*.s` for a host that ends in `.s`. -/
def HostCovered (pattern host : String) : Prop :=
  pattern = host ∨ ∃ s t, pattern = "*." ++ s ∧ host = t ++ "." ++ s

/-- No method is listed, or the method is, up to case. -/
def MethodCovered (methods : List String) (method : String) : Prop :=
  methods = [] ∨ ∃ m ∈ methods, toUppercase m = toUppercase method

variable {s : String}

theorem stripPrefix_eq_some {pre rest : String} (h : stripPrefix s pre = some rest) : s = pre ++ rest := by
  unfold stripPrefix at h
  split at h
  · next hpre =>
      injection h with h
      obtain ⟨more, hmore⟩ := List.isPrefixOf_iff_prefix.mp hpre
      apply String.toList_inj.mp
      rw [String.toList_append, ← h, String.toList_ofList, ← hmore, List.drop_left]
  · cases h

theorem endsWith_iff {suf : String} : endsWith s suf = true ↔ ∃ t, s = t ++ suf := by
  unfold endsWith
  rw [List.isSuffixOf_iff_suffix]
  constructor
  · rintro ⟨more, hmore⟩
    refine ⟨String.ofList more, ?_⟩
    apply String.toList_inj.mp
    rw [String.toList_append, String.toList_ofList, hmore]
  · rintro ⟨t, rfl⟩
    exact ⟨t.toList, by simp⟩

variable {p : EndpointPattern} {host : String}

/-- **Host matching** stops at label boundaries. -/
theorem hostMatches_sound (h : p.hostMatches host = true) : HostCovered p.host host := by
  unfold EndpointPattern.hostMatches at h
  split at h
  · next heq => exact Or.inl heq
  · split at h
    · next suffix hsuffix =>
        split at h
        · next hends =>
            simp only [Bool.and_eq_true, decide_eq_true_eq] at hends
            obtain ⟨t, rfl⟩ := endsWith_iff.mp hends.1
            have hbefore : String.ofList ((t ++ suffix).toList.take
                ((t ++ suffix).toList.length - suffix.toList.length)) = t := by
              apply String.toList_inj.mp
              simp
            simp only [hbefore, Bool.or_eq_true] at h
            rcases h with hdot | hempty
            · obtain ⟨t', rfl⟩ := endsWith_iff.mp hdot
              exact Or.inr ⟨suffix, t', stripPrefix_eq_some hsuffix, rfl⟩
            · -- an empty prefix would make the host as short as the suffix
              have ht : t = "" := by simpa using hempty
              rw [ht] at hends
              simp at hends
        · cases h
    · cases h

variable {path : String}

theorem endpointMatches_sound {method : String} (h : p.endpointMatches host path method = true) :
    HostCovered p.host host ∧ MethodCovered p.methods method ∧
      ∀ pre, p.pathPrefix = some pre → pre.toList <+: path.toList := by
  unfold EndpointPattern.endpointMatches at h
  split_ifs at h with hhost hpath hmethod
  refine ⟨hostMatches_sound (by simpa using hhost), ?_, ?_⟩
  · by_cases hempty : p.methods = []
    · exact Or.inl hempty
    · right
      simpa [hempty] using hmethod
  · intro pre hpre
    have hstarts : startsWith path pre = true := by simpa [hpre] using hpath
    exact List.isPrefixOf_iff_prefix.mp hstarts

/-! ## UTF-8 -/

variable {c : Char}

/-- A byte below 128 encodes the character with that number. -/
theorem utf8EncodeChar_ascii {b : UInt8} (h : b ∈ String.utf8EncodeChar c) (hb : b.toNat < 128) :
    c.toNat = b.toNat := by
  have hc : c.toNat = c.val.toNat := rfl
  unfold String.utf8EncodeChar at h
  simp only at h
  split at h
  · next hle =>
      simp only [List.mem_singleton] at h
      rw [h]
      simp only [UInt8.toNat_ofNat']
      omega
  · -- the bytes of a longer encoding are all 128 or more
    split at h
    · simp only [List.mem_cons, List.not_mem_nil, or_false] at h
      rcases h with h | h <;> (rw [h] at hb; simp only [UInt8.toNat_ofNat'] at hb; omega)
    · split at h
      · simp only [List.mem_cons, List.not_mem_nil, or_false] at h
        rcases h with h | h | h <;> (rw [h] at hb; simp only [UInt8.toNat_ofNat'] at hb; omega)
      · simp only [List.mem_cons, List.not_mem_nil, or_false] at h
        rcases h with h | h | h | h <;> (rw [h] at hb; simp only [UInt8.toNat_ofNat'] at hb; omega)

theorem toByteArray_eq (s : String) : s.toByteArray = (s.toList.flatMap String.utf8EncodeChar).toByteArray := by
  conv_lhs => rw [← @String.ofList_toList s]
  rw [String.toByteArray_ofList]
  rfl

/-- What was decoded encodes to the bytes. -/
theorem utf8_of_fromUTF8 {bs : List UInt8} (h : String.fromUTF8? bs.toByteArray = some s) :
    bs = s.toList.flatMap String.utf8EncodeChar := by
  unfold String.fromUTF8? at h
  split at h
  · injection h with h
    have hbytes : s.toByteArray = bs.toByteArray := by
      rw [← h]
      rfl
    rw [toByteArray_eq] at hbytes
    exact (List.toByteArray_inj.mp hbytes).symm
  · cases h

theorem fromUTF8_utf8 (s : String) :
    String.fromUTF8? (s.toList.flatMap String.utf8EncodeChar).toByteArray = some s := by
  unfold String.fromUTF8?
  rw [← toByteArray_eq, dif_pos s.isValidUTF8]
  rfl

/-! ## Escapes -/

theorem percentDecode_cons_ne (hc : c ≠ '%') (rest : List Char) :
    percentDecode (c :: rest) = String.utf8EncodeChar c ++ percentDecode rest := by
  match rest with
  | [] => rfl
  | [_] => rfl
  | a :: b :: more => simp [percentDecode, hc]

variable {a b : Char}

theorem percentDecode_escape (ha : isHexDigit a = true) (hb : isHexDigit b = true) (more : List Char) :
    percentDecode ('%' :: a :: b :: more) = escapeByte a b :: percentDecode more := by
  simp [percentDecode, ha, hb]

variable {cs : List Char}

/-- **Every `%` of a valid piece starts an escape**, and its byte is decoded. The induction follows the check; a
    digit of an escape is no `%`. -/
theorem escape_of_valid (h : hasValidPercentEncoding cs = true) : ∀ {pre post : List Char}, cs = pre ++ '%' :: post →
      ∃ a b rest, post = a :: b :: rest ∧ isHexDigit a = true ∧ isHexDigit b = true ∧
        escapeByte a b ∈ percentDecode cs := by
  have hpct : isHexDigit '%' = false := by decide
  fun_induction hasValidPercentEncoding cs with
  | case1 =>
    intro pre post hcs
    simp at hcs
  | case2 a b more ih =>
    simp only [Bool.and_eq_true] at h
    obtain ⟨⟨ha, hb⟩, hmore⟩ := h
    intro pre post hcs
    rw [percentDecode_escape ha hb]
    match pre, hcs with
    | [], hcs =>
      simp only [List.nil_append, List.cons.injEq, true_and] at hcs
      exact ⟨a, b, more, hcs.symm, ha, hb, List.mem_cons_self⟩
    | [_], hcs =>
      simp only [List.cons_append, List.nil_append, List.cons.injEq] at hcs
      rw [hcs.2.1, hpct] at ha
      cases ha
    | [_, _], hcs =>
      simp only [List.cons_append, List.nil_append, List.cons.injEq] at hcs
      rw [hcs.2.2.1, hpct] at hb
      cases hb
    | _ :: _ :: _ :: pre, hcs =>
      simp only [List.cons_append, List.cons.injEq] at hcs
      obtain ⟨a', b', rest, hpost, ha', hb', hmem⟩ := ih hmore hcs.2.2.2
      exact ⟨a', b', rest, hpost, ha', hb', List.mem_cons_of_mem _ hmem⟩
  | case3 => cases h
  | case4 c rest hc ih =>
    intro pre post hcs
    rw [percentDecode_cons_ne hc]
    match pre, hcs with
    | [], hcs =>
      simp only [List.nil_append, List.cons.injEq] at hcs
      exact absurd hcs.1 hc
    | _ :: pre, hcs =>
      simp only [List.cons_append, List.cons.injEq] at hcs
      obtain ⟨a', b', more, hpost, ha', hb', hmem⟩ := ih h hcs.2
      exact ⟨a', b', more, hpost, ha', hb', List.mem_append_right _ hmem⟩

variable {segment : String}

/-- An escape of a decoded piece is not the escape of a character that the decoded piece does not have. -/
theorem escapeByte_ne {raw : String} (hdecode : urldecode raw = some segment)
    (hmem : escapeByte a b ∈ percentDecode raw.toList) (hc : c.toNat < 128) (hno : c ∉ segment.toList) :
    (escapeByte a b).toNat ≠ c.toNat := by
  intro heq
  rw [utf8_of_fromUTF8 hdecode, List.mem_flatMap] at hmem
  obtain ⟨d, hd, hbyte⟩ := hmem
  have hsame := utf8EncodeChar_ascii hbyte (heq ▸ hc)
  have hdc : d = c := Char.toNat_inj.mp (hsame.trans heq)
  exact hno (hdc ▸ hd)

/-- A character of a text that is no separator lies in one of the pieces, with what follows it up to the next
    separator. -/
theorem piece_of_char {sep c : Char} (hc : c ≠ sep) :
    ∀ (pre post : List Char), ∃ piece ∈ (pre ++ c :: post).splitOn sep, ∃ pre',
      piece = pre' ++ c :: post.takeWhile (· ≠ sep)
  | [], post => by
      have hhead : ∀ cs : List Char, ∃ more, cs.splitOn sep = cs.takeWhile (· ≠ sep) :: more := by
        intro cs
        induction cs with
        | nil => exact ⟨[], by simp⟩
        | cons d cs ih =>
          obtain ⟨more, hmore⟩ := ih
          rw [List.splitOn_cons_eq_if_modifyHead, hmore]
          by_cases hd : d = sep
          · exact ⟨cs.takeWhile (· ≠ sep) :: more, by simp [hd]⟩
          · exact ⟨more, by simp [hd]⟩
      obtain ⟨more, hmore⟩ := hhead (c :: post)
      refine ⟨(c :: post).takeWhile (· ≠ sep), ?_, [], ?_⟩
      · rw [List.nil_append, hmore]
        exact List.mem_cons_self
      · simp [hc]
  | d :: pre, post => by
      obtain ⟨piece, hpiece, pre', heq⟩ := piece_of_char hc pre post
      rw [List.cons_append, List.splitOn_cons_eq_if_modifyHead]
      by_cases hd : d = sep
      · exact ⟨piece, by simp [hd, hpiece], pre', heq⟩
      · obtain ⟨first, more, hsplit⟩ := List.exists_cons_of_ne_nil
          (List.splitOn_ne_nil sep (pre ++ c :: post))
        rw [hsplit] at hpiece
        rcases List.mem_cons.mp hpiece with rfl | hpiece
        · exact ⟨d :: piece, by simp [hd, hsplit], d :: pre', by simp [heq]⟩
        · exact ⟨piece, by simp [hd, hsplit, hpiece], pre', heq⟩

/-! ## Normal paths -/

/-- A segment that `normalize_path` keeps. -/
def Kept (segment : String) : Prop :=
  segment ≠ "" ∧ segment ≠ "." ∧ segment ≠ ".." ∧ '/' ∉ segment.toList

/-- Rooted, without `.` and `..` and without empty segments except at the ends. -/
structure NormalPath (path : String) : Prop where
  rooted : path.toList.head? = some '/'
  noDots : ∀ piece ∈ splitChar path '/', piece ≠ "." ∧ piece ≠ ".."
  noInnerEmpty : ∀ piece ∈ (splitChar path '/').tail.dropLast, piece ≠ ""

variable {segments : List String}

/-- **A parent segment** takes back the segment before it, -/
theorem resolve_parent {name : String} (hname : Kept name) (before after : List String) :
    (before ++ name :: ".." :: after).foldl pushSegment segments = (before ++ after).foldl pushSegment segments := by
  have htwo : ∀ kept, pushSegment (pushSegment kept name) ".." = kept := by
    intro kept
    obtain ⟨hempty, hdot, hdots, -⟩ := hname
    simp [pushSegment, hempty, hdot, hdots]
  simp only [List.foldl_append, List.foldl_cons, htwo]

/-- and stays at the root where there is none. -/
theorem resolve_root (after : List String) : (".." :: after).foldl pushSegment [] = after.foldl pushSegment [] := rfl

theorem pushSegment_kept (h : ∀ x ∈ segments, Kept x) (hsep : '/' ∉ segment.toList) :
    ∀ x ∈ pushSegment segments segment, Kept x := by
  unfold pushSegment
  split_ifs with hdot hdots
  · exact h
  · exact fun x hx => h x (List.dropLast_subset _ hx)
  · intro x hx
    rcases List.mem_append.mp hx with hx | hx
    · exact h x hx
    · rw [List.mem_singleton.mp hx]
      rw [not_or] at hdot
      exact ⟨hdot.1, hdot.2, hdots, hsep⟩

/-- **The loop**: every segment is validly escaped, decodes, and decodes to something without separators; the result
    is the decoded segments, resolved. -/
theorem normalizeSegments_ok {raws : List String} :
    ∀ {segments result : List String}, normalizeSegments segments raws = .ok result →
      (∀ raw ∈ raws, hasValidPercentEncoding raw.toList = true ∧
        ∃ segment, urldecode raw = some segment ∧ '/' ∉ segment.toList ∧ '\\' ∉ segment.toList) ∧
      ∃ decoded, raws.mapM urldecode = some decoded ∧ result = decoded.foldl pushSegment segments ∧
        ((∀ x ∈ segments, Kept x) → ∀ x ∈ result, Kept x) := by
  induction raws with
  | nil =>
    intro segments result h
    injection h with h
    subst h
    exact ⟨by simp, [], rfl, rfl, id⟩
  | cons raw raws ih =>
    intro segments result h
    unfold normalizeSegments at h
    split_ifs at h with hvalid
    cases hdecode : urldecode raw with
    | none => simp [hdecode] at h
    | some segment =>
      rw [hdecode] at h
      simp only at h
      split_ifs at h with hsep
      simp only [List.contains_eq_mem, Bool.or_eq_true, decide_eq_true_eq, not_or] at hsep
      obtain ⟨hraws, decoded, hmap, hresult, hkept⟩ := ih h
      refine ⟨?_, segment :: decoded, ?_, hresult, ?_⟩
      · intro x hx
        rcases List.mem_cons.mp hx with rfl | hx
        · exact ⟨by simpa using hvalid, segment, hdecode, hsep.1, hsep.2⟩
        · exact hraws x hx
      · simp [List.mapM_cons, hdecode, hmap]
      · intro hsegments
        exact hkept (pushSegment_kept hsegments hsep.1)

theorem join_toList (segments : List String) :
    (join "/" segments).toList = ['/'].intercalate (segments.map String.toList) := by
  induction segments with
  | nil => rfl
  | cons x xs ih =>
    cases xs with
    | nil => simp [join]
    | cons y ys =>
      have hjoin : join "/" (x :: y :: ys) = x ++ "/" ++ join "/" (y :: ys) := rfl
      rw [hjoin, String.toList_append, String.toList_append, ih]
      simp [List.intercalate_cons_cons]

/-- The pieces of an assembled path are its segments, between the root and perhaps a trailing slash. -/
theorem split_assemblePath (path : String) (h : ∀ x ∈ segments, Kept x) :
    splitChar (assemblePath path segments) '/' = "" :: segments ∨
      splitChar (assemblePath path segments) '/' = "" :: (segments ++ [""]) := by
  have hroot : ("/" ++ join "/" segments).toList = '/' :: ['/'].intercalate (segments.map String.toList) := by
    rw [String.toList_append, join_toList]
    rfl
  by_cases hnil : segments = []
  · -- only the root is left, which ends in a slash already
    right
    subst hnil
    have hpath : assemblePath path [] = "/" := by
      have hslash : endsWith ("/" ++ join "/" []) "/" = true := by decide
      simp only [assemblePath, hslash, Bool.not_true, Bool.and_false, Bool.false_eq_true, if_false]
      rfl
    rw [hpath]
    decide
  · have hsplit : (['/'].intercalate (segments.map String.toList)).splitOn '/' = segments.map String.toList := by
      apply List.splitOn_intercalate
      · intro l hl
        obtain ⟨x, hx, rfl⟩ := List.mem_map.mp hl
        exact (h x hx).2.2.2
      · simpa using hnil
    have hmap : (segments.map String.toList).map String.ofList = segments := by simp
    have hplain : ('/' :: ['/'].intercalate (segments.map String.toList)).splitOn '/' =
        [] :: segments.map String.toList := by
      rw [List.splitOn_cons_eq_if_modifyHead, hsplit]
      simp
    unfold assemblePath splitChar
    simp only
    split
    · right
      rw [String.toList_append, hroot]
      have hsnoc : ("/" : String).toList = '/' :: [] := rfl
      rw [hsnoc, List.splitOn_append_cons_self, hplain]
      simp
    · left
      rw [hroot, hplain]
      simp

theorem assemblePath_normal (path : String) (h : ∀ x ∈ segments, Kept x) : NormalPath (assemblePath path segments) where
  rooted := by
    unfold assemblePath
    simp only
    split <;> simp [String.toList_append]
  noDots := by
    intro piece hpiece
    have hmem : piece = "" ∨ piece ∈ segments := by
      rcases split_assemblePath path h with hs | hs
      · rw [hs] at hpiece
        simpa using hpiece
      · rw [hs] at hpiece
        simp at hpiece
        tauto
    rcases hmem with rfl | hmem
    · decide
    · exact ⟨(h piece hmem).2.1, (h piece hmem).2.2.1⟩
  noInnerEmpty := by
    intro piece hpiece
    have hmem : piece ∈ segments := by
      rcases split_assemblePath path h with hs | hs
      · rw [hs] at hpiece
        exact List.dropLast_subset _ hpiece
      · rw [hs] at hpiece
        simpa using hpiece
    exact (h piece hmem).1

/-! ## Allowed requests -/

/-- Every escape of a URL path is valid, and none is an encoded `/` or `\\`. -/
def CleanEscapes (path : String) : Prop :=
  ∀ pre post, path.toList = pre ++ '%' :: post → ∃ a b rest, post = a :: b :: rest ∧
    isHexDigit a = true ∧ isHexDigit b = true ∧ escapeByte a b ≠ 0x2F ∧ escapeByte a b ≠ 0x5C

/-- What `normalize_path` accepts has clean escapes. -/
theorem cleanEscapes_of_normalize (h : normalizeSegments [] (splitChar path '/') = .ok segments) : CleanEscapes path := by
  obtain ⟨hraws, _⟩ := normalizeSegments_ok h
  intro pre post hpath
  have hne : '%' ≠ '/' := by decide
  obtain ⟨piece, hpiece, pre', heq⟩ := piece_of_char hne pre post
  rw [← hpath] at hpiece
  have hmem : String.ofList piece ∈ splitChar path '/' := List.mem_map_of_mem hpiece
  obtain ⟨hvalid, segment, hdecode, hslash, hback⟩ := hraws _ hmem
  have hlist : (String.ofList piece).toList = pre' ++ '%' :: post.takeWhile (· ≠ '/') := by
    rw [String.toList_ofList, heq]
  obtain ⟨a, b, rest, hpost, ha, hb, hbyte⟩ := escape_of_valid hvalid hlist
  have hfollow : post = a :: b :: (rest ++ post.dropWhile (· ≠ '/')) := by
    conv_lhs => rw [← List.takeWhile_append_dropWhile (p := (· ≠ '/')) (l := post)]
    rw [hpost]
    rfl
  refine ⟨a, b, _, hfollow, ha, hb, ?_, ?_⟩
  · intro heq'
    exact escapeByte_ne hdecode hbyte (by decide) hslash (by rw [heq']; rfl)
  · intro heq'
    exact escapeByte_ne hdecode hbyte (by decide) hback (by rw [heq']; rfl)

/-- What the URL standard promises of a parsed scheme: it is in lower case. -/
def LowerSchemes (parse : UrlParser) : Prop := ∀ url u, parse url = .ok u → toLowercase u.scheme = u.scheme

/-- What a successful parse went through. -/
theorem parseUrl_ok {parse : UrlParser} {url : String} {parsed : ParsedUrl} (h : parseUrl parse url = .ok parsed) :
    ∃ u host segments, parse url = .ok u ∧ parsed.scheme = toLowercase u.scheme ∧ u.username = "" ∧
      u.password = none ∧ u.hostStr = some host ∧ parsed.host = toLowercase (unbracket host) ∧
      normalizeSegments [] (splitChar u.path '/') = .ok segments ∧ parsed.path = assemblePath u.path segments := by
  unfold parseUrl at h
  cases hparse : parse url with
  | error e => simp [hparse] at h
  | ok u =>
    rw [hparse] at h
    simp only at h
    split_ifs at h with hscheme huser
    simp only [Bool.or_eq_true, not_or, Bool.not_eq_true', Bool.not_eq_false] at huser
    cases hhost : u.hostStr with
    | none => simp [hhost] at h
    | some host =>
      rw [hhost] at h
      unfold normalizePath at h
      cases hsegs : normalizeSegments [] (splitChar u.path '/') with
      | error e => simp [hsegs] at h
      | ok segments =>
        rw [hsegs] at h
        simp only [Except.ok.injEq] at h
        subst h
        have huser' : u.username = "" := by simpa using huser.1
        have hpass : u.password = none := by simpa using huser.2
        exact ⟨u, host, segments, rfl, rfl, huser', hpass, hhost, rfl, hsegs, rfl⟩

/-- **Allowlist soundness.** An allowed URL parses, with scheme `https` and no userinfo. Some pattern covers its host
    (without the brackets of an IPv6 literal, in lower case) and the method, and its path prefix starts the path with
    each segment decoded once and dot and empty segments resolved. That path is normal, and no escape of the URL's
    path is invalid or an encoded separator. -/
theorem validate_sound (parse : UrlParser) (hparse : LowerSchemes parse) (patterns : List EndpointPattern)
    (url method : String) (h : (AllowlistValidator.new patterns).validate parse url method = .allowed) :
    ∃ u host decoded, parse url = .ok u ∧ u.scheme = "https" ∧ u.username = "" ∧ u.password = none ∧
      u.hostStr = some host ∧ (splitChar u.path '/').mapM urldecode = some decoded ∧
      (∃ p ∈ patterns, HostCovered p.host (toLowercase (unbracket host)) ∧ MethodCovered p.methods method ∧
        ∀ pre, p.pathPrefix = some pre →
          pre.toList <+: (assemblePath u.path (decoded.foldl pushSegment [])).toList) ∧
      NormalPath (assemblePath u.path (decoded.foldl pushSegment [])) ∧ CleanEscapes u.path := by
  unfold AllowlistValidator.validate at h
  split_ifs at h with hempty
  cases hp : parseUrl parse url with
  | error e => simp [hp] at h
  | ok parsed =>
    rw [hp] at h
    simp only [AllowlistValidator.new, Bool.true_and, bne_iff_ne, ne_eq, ite_not] at h
    by_cases hscheme : parsed.scheme = "https"
    · rw [if_pos hscheme] at h
      by_cases hany : (patterns.any fun p => p.endpointMatches parsed.host parsed.path method) = true
      · obtain ⟨u, host, segments, hu, hs, huser, hpass, hhost, hph, hsegs, hpath⟩ := parseUrl_ok hp
        obtain ⟨_, decoded, hdecoded, hresult, hkept⟩ := normalizeSegments_ok hsegs
        obtain ⟨p, hmem, hmatch⟩ := List.any_eq_true.mp hany
        have hsound := endpointMatches_sound hmatch
        rw [hph, hpath, hresult] at hsound
        have hnormal := assemblePath_normal u.path (hkept (by simp))
        rw [hresult] at hnormal
        refine ⟨u, host, decoded, hu, ?_, huser, hpass, hhost, hdecoded, ⟨p, hmem, hsound⟩, hnormal,
          cleanEscapes_of_normalize hsegs⟩
        rw [← hparse url u hu, ← hs, hscheme]
      · simp [hany] at h
    · rw [if_neg hscheme] at h
      cases h

/-! ## A request that is allowed -/

theorem percentDecode_plain (h : '%' ∉ cs) : percentDecode cs = cs.flatMap String.utf8EncodeChar := by
  induction cs with
  | nil => rfl
  | cons c cs ih =>
    rw [List.mem_cons, not_or] at h
    rw [percentDecode_cons_ne (Ne.symm h.1), ih h.2, List.flatMap_cons]

/-- Text without escapes decodes to itself. -/
theorem urldecode_plain (h : '%' ∉ s.toList) : urldecode s = some s := by
  unfold urldecode
  rw [percentDecode_plain h]
  exact fromUTF8_utf8 s

/-- The URL of a chat request, parsed. -/
def chatUrl : Url := ⟨"https", "", none, some (.domain "api.openai.com"), some "api.openai.com", none, "/v1/chat", none⟩

/-- A parser that knows this URL. -/
def chatParser : UrlParser := fun url =>
  if url = "https://api.openai.com/v1/chat" then .ok chatUrl else .error "relative URL without a base"

def chatPattern : EndpointPattern := ⟨"api.openai.com", some "/v1/", ["post"]⟩

theorem chat_allowed :
    (AllowlistValidator.new [chatPattern]).validate chatParser "https://api.openai.com/v1/chat" "POST" = .allowed := by
  have hsplit : splitChar "/v1/chat" '/' = ["", "v1", "chat"] := by decide
  have hsegs : normalizeSegments [] ["", "v1", "chat"] = .ok ["v1", "chat"] := by
    have h0 : urldecode "" = some "" := urldecode_plain (by decide)
    have h1 : urldecode "v1" = some "v1" := urldecode_plain (by decide)
    have h2 : urldecode "chat" = some "chat" := urldecode_plain (by decide)
    simp only [normalizeSegments, h0, h1, h2]
    decide
  have hpath : normalizePath "/v1/chat" = .ok "/v1/chat" := by
    unfold normalizePath
    rw [hsplit, hsegs]
    decide
  have hparse : parseUrl chatParser "https://api.openai.com/v1/chat" = .ok ⟨"https", "api.openai.com", "/v1/chat"⟩ := by
    have hu : chatParser "https://api.openai.com/v1/chat" = .ok chatUrl := by simp [chatParser]
    have hscheme : toLowercase "https" = "https" := by decide
    have hhost : toLowercase (unbracket "api.openai.com") = "api.openai.com" := by decide
    unfold parseUrl
    rw [hu]
    simp [chatUrl, hscheme, hhost, hpath]
  have hmatch : chatPattern.endpointMatches "api.openai.com" "/v1/chat" "POST" = true := by decide
  unfold AllowlistValidator.validate
  rw [hparse]
  simp [AllowlistValidator.new, hmatch]

theorem chat_request_sound : ∃ u host decoded,
    chatParser "https://api.openai.com/v1/chat" = .ok u ∧ u.scheme = "https" ∧ u.username = "" ∧ u.password = none ∧
      u.hostStr = some host ∧ (splitChar u.path '/').mapM urldecode = some decoded ∧
      (∃ p ∈ [chatPattern], HostCovered p.host (toLowercase (unbracket host)) ∧ MethodCovered p.methods "POST" ∧
        ∀ pre, p.pathPrefix = some pre →
          pre.toList <+: (assemblePath u.path (decoded.foldl pushSegment [])).toList) ∧
      NormalPath (assemblePath u.path (decoded.foldl pushSegment [])) ∧ CleanEscapes u.path := by
  refine validate_sound chatParser ?_ [chatPattern] _ _ chat_allowed
  intro url u h
  unfold chatParser at h
  split_ifs at h
  injection h with h
  rw [← h]
  decide

end Freeclawdia.WasmAllowlist
