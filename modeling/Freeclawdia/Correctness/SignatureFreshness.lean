import Freeclawdia.Channels.Wasm.Router
import Freeclawdia.Correctness.WasmAllowlist

/-!
# `Correctness.SignatureFreshness` — how old a signed webhook may be

The timestamp is any text that reads as an `i64`, and it is subtracted from the clock before a signature is looked at. The
check is exact as long as the distance is below 2^63; beyond that the subtraction or the absolute value overflows, and the
smallest `i64`, which is its own absolute value, is never stale.
-/

namespace Freeclawdia.Webhook

open Rust

/-! ## What is promised -/

/-- `now_secs - ts` and its absolute value are an `i64`. -/
def NoOverflow (nowSecs : Int64) (ts : Int) : Prop :=
  -2 ^ 63 ≤ nowSecs.toInt - ts ∧ nowSecs.toInt - ts < 2 ^ 63 ∧ |nowSecs.toInt - ts| < 2 ^ 63

/-- A check overflows nowhere, and accepts exactly what is fresh and signed. -/
def ExactCheck (timestamp : String) (nowSecs : Int64) (limit : Int) (signed : Prop) (verdict : Bool) : Prop :=
  (∀ ts, parseI64 timestamp = some ts → NoOverflow nowSecs ts) ∧
    (verdict = true ↔ ∃ ts, parseI64 timestamp = some ts ∧ |nowSecs.toInt - ts| ≤ limit ∧ signed)

variable (crypto : Crypto)

/-- The signature is one of the timestamp followed by the body. -/
def DiscordSigned (publicKeyHex signatureHex timestamp : String) (body : List UInt8) : Prop :=
  ∃ signature key, hexDecode signatureHex.toList = some signature ∧ hexDecode publicKeyHex.toList = some key ∧
    signature.length = 64 ∧ crypto.isKey key = true ∧
    crypto.verifyStrict key (encodeUtf8 timestamp.toList ++ body) signature = true

/-- `v0:`, the timestamp, `:` and the body. -/
def slackBase (timestamp : String) (body : List UInt8) : List UInt8 :=
  encodeUtf8 ("v0:".toList ++ timestamp.toList ++ [':']) ++ body

def SlackSigned (signingSecret timestamp : String) (body : List UInt8)
    (signatureHeader : String) : Prop :=
  signatureHeader = "v0=" ++ hexEncode (crypto.hmacSha256 (encodeUtf8 signingSecret.toList) (slackBase timestamp body))

/-- The timestamp, if it is one, is less than 2^63 seconds away. -/
def Near (timestamp : String) (nowSecs : Int64) : Prop :=
  ∀ ts, parseI64 timestamp = some ts → |nowSecs.toInt - ts| < 2 ^ 63

/-! ## The check of the timestamp -/

variable {ts : Int} {s : String}

theorem parseI64_range (h : parseI64 s = some ts) : -2 ^ 63 ≤ ts ∧ ts < 2 ^ 63 := by
  unfold parseI64 at h
  split at h
  · split at h
    · cases h
    · obtain ⟨n, -, hn⟩ := Option.bind_eq_some_iff.mp h
      split at hn
      · cases hn
        omega
      · cases hn
  · obtain ⟨n, -, hn⟩ := Option.bind_eq_some_iff.mp h
    split at hn
    · cases hn
      omega
    · cases hn

variable {nowSecs : Int64} {timestamp : String}

theorem near_iff : Near timestamp nowSecs ↔ ∀ ts, parseI64 timestamp = some ts → NoOverflow nowSecs ts := by
  refine forall₂_congr fun ts _ => ⟨fun h => ?_, fun h => h.2.2⟩
  have := abs_lt.mp h
  exact ⟨by omega, by omega, h⟩

/-- Without an overflow, stale is what lies further away than the limit. -/
theorem isStale_iff {limit : Int64} (hts : -2 ^ 63 ≤ ts ∧ ts < 2 ^ 63) (h : NoOverflow nowSecs ts) :
    isStale nowSecs ts limit = false ↔ |nowSecs.toInt - ts| ≤ limit.toInt := by
  obtain ⟨hlow, hhigh, habs⟩ := h
  have hdiff : (nowSecs - Int64.ofInt ts).toInt = nowSecs.toInt - ts := by
    rw [Int64.toInt_sub, Int64.toInt_ofInt_of_le hts.1 hts.2]
    exact Int.bmod_eq_of_le hlow hhigh
  have hmin : (nowSecs - Int64.ofInt ts).toBitVec ≠ BitVec.intMin 64 := by
    intro heq
    have hint : (nowSecs - Int64.ofInt ts).toInt = (BitVec.intMin 64).toInt := congrArg BitVec.toInt heq
    rw [hdiff] at hint
    rw [hint] at habs
    exact absurd habs (by decide)
  have hsize : (nowSecs - Int64.ofInt ts).abs.toInt = |nowSecs.toInt - ts| := by
    rw [← hdiff, Int.abs_eq_natAbs]
    exact BitVec.toInt_abs_eq_natAbs_of_ne_intMin hmin
  rw [isStale, decide_eq_false_iff_not, Int64.lt_iff_toInt_lt, hsize, not_lt]

/-! ## The signed text -/

/-- No text of a number has a colon. -/
theorem colon_of_parseUsize {n : Nat} (h : parseUsize s = some n) : ':' ∉ s.toList := by
  intro hmem
  unfold parseUsize at h
  -- a sign may be dropped, but a colon is none and is looked at
  have hdigits : ':' ∈ (if s.toList.head? = some '+' then s.toList.drop 1 else s.toList) := by
    split
    · next hplus =>
        obtain ⟨rest, hrest⟩ := List.head?_eq_some_iff.mp hplus
        rw [hrest] at hmem ⊢
        exact (List.mem_cons.mp hmem).resolve_left (by decide)
    · exact hmem
  rw [if_pos (.inr (.inl (List.any_eq_true.mpr ⟨':', hdigits, by decide⟩)))] at h
  cases h

theorem colon_of_parseI64 (h : parseI64 s ≠ none) : ':' ∉ s.toList := by
  obtain ⟨ts, hts⟩ := Option.ne_none_iff_exists'.mp h
  unfold parseI64 at hts
  split at hts
  · next digits hdigits =>
      split at hts
      · cases hts
      · obtain ⟨n, hn, -⟩ := Option.bind_eq_some_iff.mp hts
        intro hmem
        rw [WasmAllowlist.stripPrefix_eq_some hdigits, String.toList_append] at hmem
        exact colon_of_parseUsize hn ((List.mem_append.mp hmem).resolve_left (by decide))
  · obtain ⟨n, hn, -⟩ := Option.bind_eq_some_iff.mp hts
    exact colon_of_parseUsize hn

theorem colon_of_encodeUtf8 {text : List Char} (h : ':' ∉ text) : 0x3A ∉ encodeUtf8 text := by
  intro hmem
  obtain ⟨c, hc, hbyte⟩ := List.mem_flatMap.mp hmem
  have hcolon : c = ':' := Char.toNat_inj.mp (WasmAllowlist.utf8EncodeChar_ascii hbyte (by decide))
  exact h (hcolon ▸ hc)

/-- The base string ends its timestamp at the second colon, so it belongs to one request. -/
theorem slackBase_injective {t t' : String} {b b' : List UInt8} (ht : parseI64 t ≠ none) (ht' : parseI64 t' ≠ none)
    (h : slackBase t b = slackBase t' b') : t = t' ∧ b = b' := by
  have hsplit : ∀ (t : String) (b : List UInt8),
      slackBase t b = encodeUtf8 "v0:".toList ++ (encodeUtf8 t.toList ++ 0x3A :: b) := by
    intro t b
    show List.flatMap _ _ ++ b = _
    rw [List.flatMap_append, List.flatMap_append, List.append_assoc, List.append_assoc]
    rfl
  rw [hsplit, hsplit] at h
  have htext : encodeUtf8 t.toList = encodeUtf8 t'.toList ∧ b = b' := by
    have hcolon := colon_of_encodeUtf8 (colon_of_parseI64 ht)
    have hcolon' := colon_of_encodeUtf8 (colon_of_parseI64 ht')
    generalize encodeUtf8 t.toList = text at h hcolon ⊢
    generalize encodeUtf8 t'.toList = text' at h hcolon' ⊢
    have hpass : ∀ b ∈ text, (b != 0x3A) = true := fun b hb => bne_iff_ne.mpr fun h => hcolon (h ▸ hb)
    have hpass' : ∀ b ∈ text', (b != 0x3A) = true := fun b hb => bne_iff_ne.mpr fun h => hcolon' (h ▸ hb)
    have hbefore := congrArg (List.takeWhile (· != 0x3A)) (List.append_cancel_left h)
    have hbehind := congrArg (List.dropWhile (· != 0x3A)) (List.append_cancel_left h)
    rw [List.takeWhile_append_of_pos hpass, List.takeWhile_append_of_pos hpass'] at hbefore
    rw [List.dropWhile_append_of_pos hpass, List.dropWhile_append_of_pos hpass'] at hbehind
    exact ⟨by simpa using hbefore, by simpa using hbehind⟩
  refine ⟨?_, htext.2⟩
  have hread : fromUtf8 (encodeUtf8 t.toList) = some t := fromUtf8_eq_some_iff.mpr rfl
  rw [htext.1, fromUtf8_eq_some_iff.mpr rfl] at hread
  exact (Option.some.inj hread).symm

/-! ## The two checks -/

/-- A check that looks at the age first and is right about fresh requests is exact for what is near. -/
theorem exact_of_near (limit : Int64) {signed : Prop} {verdict : Bool} (fresh : Bool)
    (hnone : parseI64 timestamp = none → verdict = false)
    (hsome : ∀ ts, parseI64 timestamp = some ts → verdict = if isStale nowSecs ts limit then false else fresh)
    (hfresh : fresh = true ↔ signed) :
    ExactCheck timestamp nowSecs limit.toInt signed verdict ↔ Near timestamp nowSecs := by
  rw [near_iff]
  refine ⟨fun h => h.1, fun hnear => ⟨hnear, ?_⟩⟩
  cases hts : parseI64 timestamp with
  | none =>
    rw [hnone hts]
    exact ⟨fun h => (by cases h), fun ⟨_, h, _⟩ => (by cases h)⟩
  | some ts =>
    have hstale : isStale nowSecs ts limit = false ↔ |nowSecs.toInt - ts| ≤ limit.toInt :=
      isStale_iff (parseI64_range hts) (hnear ts hts)
    rw [hsome ts hts]
    constructor
    · intro hverdict
      split at hverdict
      · cases hverdict
      · next hnot => exact ⟨ts, rfl, hstale.mp (by simpa using hnot), hfresh.mp hverdict⟩
    · rintro ⟨ts', hts', hdist, hsigned⟩
      cases hts'
      rw [hstale.mpr hdist]
      exact hfresh.mpr hsigned

/-- The signature of a fresh timestamp. -/
def discordSignature (publicKeyHex signatureHex timestamp : String) (body : List UInt8) : Bool :=
  match hexDecode signatureHex.toList, hexDecode publicKeyHex.toList with
  | some signature, some key =>
    signature.length = 64 && crypto.isKey key && crypto.verifyStrict key (encodeUtf8 timestamp.toList ++ body) signature
  | _, _ => false

theorem discord_exact_iff (publicKeyHex signatureHex timestamp : String) (body : List UInt8)
    (nowSecs : Int64) : ExactCheck timestamp nowSecs 5 (DiscordSigned crypto publicKeyHex signatureHex timestamp body)
        (verifyDiscordSignature crypto publicKeyHex signatureHex timestamp body nowSecs) ↔ Near timestamp nowSecs := by
  refine exact_of_near 5 (discordSignature crypto publicKeyHex signatureHex timestamp body)
    (fun h => by simp only [verifyDiscordSignature, h]) (fun ts h => by unfold verifyDiscordSignature; exact h ▸ rfl) ?_
  unfold DiscordSigned discordSignature
  cases hexDecode signatureHex.toList with
  | none => simp
  | some signature =>
    cases hexDecode publicKeyHex.toList with
    | none => simp
    | some key => simp [and_assoc]

theorem slack_exact_iff (signingSecret timestamp : String) (body : List UInt8) (signatureHeader : String)
    (nowSecs : Int64) :
    ExactCheck timestamp nowSecs 300 (SlackSigned crypto signingSecret timestamp body signatureHeader)
        (verifySlackSignature crypto signingSecret timestamp body signatureHeader nowSecs) ↔ Near timestamp nowSecs :=
  exact_of_near 300
    (signatureHeader = "v0=" ++ hexEncode (crypto.hmacSha256 (encodeUtf8 signingSecret.toList)
      (slackBase timestamp body)))
    (fun h => by simp only [verifySlackSignature, h]) (fun ts h => by unfold verifySlackSignature; exact h ▸ rfl)
    decide_eq_true_iff

/-- Both checks are exact for the timestamps that are less than 2^63 seconds away and for no others, and two requests with
timestamps that are numbers are never signed by one base string. -/
theorem freshness_exact_iff (crypto : Crypto) (publicKeyHex signatureHex signingSecret signatureHeader timestamp : String)
    (body : List UInt8) (nowSecs : Int64) :
    (ExactCheck timestamp nowSecs 5 (DiscordSigned crypto publicKeyHex signatureHex timestamp body)
        (verifyDiscordSignature crypto publicKeyHex signatureHex timestamp body nowSecs) ↔ Near timestamp nowSecs) ∧
      (ExactCheck timestamp nowSecs 300 (SlackSigned crypto signingSecret timestamp body signatureHeader)
        (verifySlackSignature crypto signingSecret timestamp body signatureHeader nowSecs) ↔ Near timestamp nowSecs) ∧
      ∀ t b t' b', parseI64 t ≠ none → parseI64 t' ≠ none → slackBase t b = slackBase t' b' → t = t' ∧ b = b' :=
  ⟨discord_exact_iff crypto publicKeyHex signatureHex timestamp body nowSecs,
    slack_exact_iff crypto signingSecret timestamp body signatureHeader nowSecs, fun _ _ _ _ => slackBase_injective⟩

/-- At time 0 the smallest `i64` is 2^63 seconds old and still accepted, once the signature is right. -/
theorem smallest_never_stale :
    let crypto : Crypto := { isKey := fun _ => true, verifyStrict := fun _ _ _ => true, hmacSha256 := fun _ m => m.take 2 }
    let timestamp := "-9223372036854775808"
    verifySlackSignature crypto "secret" timestamp [] "v0=7630" 0 = true ∧
      ¬ExactCheck timestamp 0 300 (SlackSigned crypto "secret" timestamp [] "v0=7630")
        (verifySlackSignature crypto "secret" timestamp [] "v0=7630" 0) := by
  intro crypto timestamp
  have hts : parseI64 timestamp = some (-9223372036854775808) := by decide
  refine ⟨by decide, fun h => ?_⟩
  exact absurd (h.1 _ hts).2.2 (by decide)

end Freeclawdia.Webhook
