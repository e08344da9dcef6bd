import Freeclawdia.Correctness.ResponseSecrets

/-!
# `Correctness.SecretBlindness` — what a WASM tool learns of credentials before its request is sent

Two runs of a request differ in the values of the host credentials, and in the order in which they visit the headers.
What the credentials go into is then the same in both, and so is everything else (`HeadersAgree`). The leak scan comes
after the injection, so it reads the values: a value that it sees is an error whose text previews it. As long as it comes
first to something the tool wrote, or to nothing (`Steady`), both runs pass or fail alike.
-/

namespace Freeclawdia.WasmTool

open Rust LeakPrefix

variable {env : HttpEnv} {d d₁ d₂ : StoreData} {req : WasmRequest}

/-! ## Two runs -/

/-- The same credential with another value. -/
structure SameShape (c₁ c₂ : ResolvedHostCredential) : Prop where
  hostPatterns : c₁.hostPatterns = c₂.hostPatterns
  headers : c₁.headers.map Prod.fst = c₂.headers.map Prod.fst
  queryParams : c₁.queryParams.map Prod.fst = c₂.queryParams.map Prod.fst

/-- The same tool with other values of its host credentials. -/
structure SameButSecrets (d₁ d₂ : StoreData) : Prop where
  http : d₁.http = d₂.http
  count : d₁.httpRequestCount = d₂.httpRequestCount
  credentials : d₁.credentials = d₂.credentials
  hostCredentials : List.Forall₂ SameShape d₁.hostCredentials d₂.hostCredentials

/-- The host credentials are injected for. -/
def targetHost (env : HttpEnv) (d : StoreData) (req : WasmRequest) : Option String :=
  extractHostFromUrl env.parse (injectCredentials d.credentials req.url)

/-- The host credentials of a request. -/
def matching (env : HttpEnv) (d : StoreData) (req : WasmRequest) : List ResolvedHostCredential :=
  match targetHost env d req with
  | some host => d.hostCredentials.filter fun cred => cred.hostPatterns.any (hostMatchesPattern host)
  | none => []

/-- The headers that carry a host credential. -/
def carriers (env : HttpEnv) (d : StoreData) (req : WasmRequest) : List String :=
  (matching env d req).flatMap fun cred => cred.headers.map Prod.fst

/-- Does the URL carry a host credential? -/
def urlCarries (env : HttpEnv) (d : StoreData) (req : WasmRequest) : Bool :=
  (matching env d req).any fun cred => !cred.queryParams.isEmpty

/-- The headers the tool passes. -/
def rawHeaders (env : HttpEnv) (req : WasmRequest) : List (String × String) := (env.parseHeaders req.headersJson).getD []

/-- Nothing the tool passes matches a blocking pattern. -/
structure WasmClean (env : HttpEnv) (req : WasmRequest) : Prop where
  url : ¬ BlockedIn env.isWord req.url.toList
  headers : ∀ h ∈ rawHeaders env req, ¬ BlockedIn env.isWord h.2.toList
  body : ∀ bytes, req.body = some bytes → ¬ BlockedIn env.isWord (fromUtf8Lossy bytes).toList

/-- The request passes the allowlist and the rate limit. -/
def Reaches (env : HttpEnv) (d : StoreData) (req : WasmRequest) : Prop :=
  checkHttpAllowed env d (injectCredentials d.credentials req.url) req.method = .ok () ∧ (recordHttpRequest d).1 = .ok ()

def leakScan (env : HttpEnv) (d : StoreData) (req : WasmRequest) : Except LeakDetectionError Unit :=
  LeakDetector.new.scanHttpRequest env.isWord (injected env d req).2 (visit env.rank (injected env d req).1) req.body

/-- Another run, whose hash maps are visited in another order. -/
def HttpEnv.visiting (env : HttpEnv) (rank : String → Nat) : HttpEnv := { env with rank }

/-- The values do not show before the request is sent: an error of either run is the error of the other, and a
    request without a blocking pattern of its own is not taken for a leak. -/
structure Blind (env : HttpEnv) (rank : String → Nat) (d₁ d₂ : StoreData) (req : WasmRequest) : Prop where
  errors : ∀ e, (checkRequest env d₁ req).1 = .error e ↔ (checkRequest (env.visiting rank) d₂ req).1 = .error e
  accepted : WasmClean env req → Reaches env d₁ req →
    leakScan env d₁ req = .ok () ∧ leakScan (env.visiting rank) d₂ req = .ok ()

/-! ## What the scan comes to first -/

/-- Where a text of a request stands. -/
inductive Place
  | url
  | header (name : String)
  | body
deriving DecidableEq

/-- The texts of a request in the order of the scan. -/
def texts (url : String) (headers : List (String × String)) (body : Option (List UInt8)) : List (Place × String) :=
  (.url, url) :: (headers.map (fun h => (.header h.1, h.2)) ++ (body.map fun bytes => (.body, fromUtf8Lossy bytes)).toList)

/-- Did a host credential go into what stands there? -/
def carries (env : HttpEnv) (d : StoreData) (req : WasmRequest) : Place → Bool
  | .url => urlCarries env d req
  | .header name => decide (name ∈ carriers env d req)
  | .body => false

/-- The texts with all credentials in them. -/
def scannedTexts (env : HttpEnv) (d : StoreData) (req : WasmRequest) : List (Place × String) :=
  texts (injected env d req).2 (visit env.rank (injected env d req).1) req.body

/-- Does the scan see a blocking pattern in the text? -/
def sees (isWord : Char → Bool) (detector : LeakDetector) (p : Place × String) : Bool :=
  (LeakDetector.scan isWord detector p.2).shouldBlock

/-- The first text of the request that the scan sees something in. -/
def firstSeen (env : HttpEnv) (d : StoreData) (req : WasmRequest) : Option (Place × String) :=
  (scannedTexts env d req).find? (sees env.isWord LeakDetector.new)

/-- The first of those that no host credential went into. -/
def firstOwn (env : HttpEnv) (d : StoreData) (req : WasmRequest) : Option (Place × String) :=
  ((scannedTexts env d req).filter fun p => !carries env d req p.1).find? (sees env.isWord LeakDetector.new)

/-- What the scan says about a text: the pattern and the preview, and for a header its name. -/
def report (isWord : Char → Bool) (detector : LeakDetector) (p : Place × String) : Except LeakDetectionError Unit :=
  match p.1, detector.scanAndClean isWord p.2 with
  | .header name, .error e => .error (.secretLeakBlocked ("header:" ++ name) e.display)
  | _, .error e => .error e
  | _, .ok _ => .ok ()

/-- The scan of a run does not come to a host credential first. -/
def Own (env : HttpEnv) (d : StoreData) (req : WasmRequest) : Prop :=
  ∀ p, firstSeen env d req = some p → carries env d req p.1 = false

/-- No run comes to a host credential first, both come to the same text of the tool, and to none if the tool passes
nothing that matches. -/
structure Steady (env : HttpEnv) (rank : String → Nat) (d₁ d₂ : StoreData) (req : WasmRequest) : Prop where
  own₁ : Own env d₁ req
  own₂ : Own (env.visiting rank) d₂ req
  same : firstOwn env d₁ req = firstOwn (env.visiting rank) d₂ req
  clean : WasmClean env req → firstSeen env d₁ req = none

/-- The tool passes something that matches, and what the scan says of the texts it comes to first reads the same. -/
def Alike (env : HttpEnv) (rank : String → Nat) (d₁ d₂ : StoreData) (req : WasmRequest) : Prop :=
  ¬ WasmClean env req ∧ ∃ p₁ p₂, firstSeen env d₁ req = some p₁ ∧ firstSeen (env.visiting rank) d₂ req = some p₂ ∧
    (report env.isWord LeakDetector.new p₁).mapError LeakDetectionError.display =
      (report env.isWord LeakDetector.new p₂).mapError LeakDetectionError.display

/-! ## The scan -/

variable {isWord : Char → Bool} {detector : LeakDetector} {p : Place × String}

theorem scanAndClean_of_sees (h : sees isWord detector p = true) :
    ∃ e, detector.scanAndClean isWord p.2 = .error e := by
  have hblock : (LeakDetector.scan isWord detector p.2).shouldBlock = true := h
  simp only [LeakDetector.scanAndClean, hblock, if_true]
  exact ⟨_, rfl⟩

theorem scanAndClean_of_not_sees (h : sees isWord detector p = false) :
    ∃ cleaned, detector.scanAndClean isWord p.2 = .ok cleaned := by
  have hblock : (LeakDetector.scan isWord detector p.2).shouldBlock = false := h
  simp only [LeakDetector.scanAndClean, hblock, Bool.false_eq_true, if_false]
  exact ⟨_, rfl⟩

theorem report_of_sees (h : sees isWord detector p = true) : ∃ e, report isWord detector p = .error e := by
  obtain ⟨e, he⟩ := scanAndClean_of_sees h
  obtain ⟨place, text⟩ := p
  cases place with
  | header name => exact ⟨.secretLeakBlocked ("header:" ++ name) e.display, by simp only [report, he]⟩
  | url => exact ⟨e, by simp only [report, he]⟩
  | body => exact ⟨e, by simp only [report, he]⟩

theorem scanHeaders_eq (detector : LeakDetector) (headers : List (String × String)) :
    detector.scanHeaders isWord headers =
      ((headers.map fun h => (Place.header h.1, h.2)).find? (sees isWord detector)).elim (.ok ())
        (report isWord detector) := by
  induction headers with
  | nil => rfl
  | cons h rest ih =>
    rw [List.map_cons]
    cases hsees : sees isWord detector (.header h.1, h.2) with
    | true =>
      obtain ⟨e, he⟩ := scanAndClean_of_sees hsees
      rw [List.find?_cons_of_pos hsees]
      simp only [LeakDetector.scanHeaders, report, he, Option.elim_some]
    | false =>
      obtain ⟨cleaned, hok⟩ := scanAndClean_of_not_sees hsees
      rw [List.find?_cons_of_neg (Bool.not_eq_true _ ▸ hsees), ← ih]
      simp only [LeakDetector.scanHeaders, hok]

/-- The scan of a request says what it says of the first text it sees something in. -/
theorem scanHttpRequest_eq (detector : LeakDetector) (url : String) (headers : List (String × String))
    (body : Option (List UInt8)) : detector.scanHttpRequest isWord url headers body =
      ((texts url headers body).find? (sees isWord detector)).elim (.ok ()) (report isWord detector) := by
  unfold LeakDetector.scanHttpRequest texts
  cases hurl : sees isWord detector (.url, url) with
  | true =>
    obtain ⟨e, he⟩ := scanAndClean_of_sees hurl
    rw [List.find?_cons_of_pos hurl]
    simp only [report, he, Option.elim_some]
  | false =>
    obtain ⟨cleaned, hok⟩ := scanAndClean_of_not_sees hurl
    rw [List.find?_cons_of_neg (Bool.not_eq_true _ ▸ hurl), List.find?_append, hok, scanHeaders_eq]
    cases hheader : (headers.map fun h => (Place.header h.1, h.2)).find? (sees isWord detector) with
    | some p =>
      obtain ⟨e, he⟩ := report_of_sees (List.find?_some hheader)
      simp only [he, Option.elim_some, Option.some_or]
    | none =>
      cases body with
      | none => rfl
      | some bytes =>
        cases hbody : sees isWord detector (.body, fromUtf8Lossy bytes) with
        | true =>
          obtain ⟨e, he⟩ := scanAndClean_of_sees hbody
          simp [report, hbody, he, Except.map]
        | false =>
          obtain ⟨cleaned, hok⟩ := scanAndClean_of_not_sees hbody
          simp [hbody, hok, Except.map]

theorem leakScan_eq : leakScan env d req =
    (firstSeen env d req).elim (.ok ()) (report env.isWord LeakDetector.new) := scanHttpRequest_eq _ _ _ _

theorem report_of_firstSeen (h : firstSeen env d req = some p) :
    ∃ e, report env.isWord LeakDetector.new p = .error e := by
  have hsees : sees env.isWord LeakDetector.new p = true := List.find?_some h
  exact report_of_sees hsees

/-- The scan passes when it comes to nothing. -/
theorem leakScan_ok_iff : leakScan env d req = .ok () ↔ firstSeen env d req = none := by
  rw [leakScan_eq]
  cases hfirst : firstSeen env d req with
  | none => exact ⟨fun _ => rfl, fun _ => rfl⟩
  | some p =>
    obtain ⟨e, he⟩ := report_of_firstSeen hfirst
    rw [Option.elim_some, he]
    exact ⟨nofun, nofun⟩

/-! ## What is injected -/

/-- The injection, credential by credential that matches. -/
theorem injectHostCredentials_eq (creds : List ResolvedHostCredential) (host : String) (headers : List (String × String))
    (url : String) : injectHostCredentials creds host headers url =
      ((creds.filter fun cred => cred.hostPatterns.any (hostMatchesPattern host)).foldl
          (fun headers cred => cred.headers.foldl (fun headers e => insertEntry e.1 e.2 headers) headers) headers,
        (creds.filter fun cred => cred.hostPatterns.any (hostMatchesPattern host)).foldl
          (fun url cred => appendQuery cred.queryParams url) url) := by
  unfold injectHostCredentials
  induction creds generalizing headers url with
  | nil => rfl
  | cons cred rest ih =>
    rw [List.foldl_cons]
    cases hmatch : cred.hostPatterns.any (hostMatchesPattern host) with
    | true => simp only [List.filter_cons, hmatch, if_true, ih, List.foldl_cons]
    | false => simp only [List.filter_cons, hmatch, Bool.false_eq_true, if_false, ih]

/-- The headers with the values of their placeholders. -/
def filledHeaders (env : HttpEnv) (d : StoreData) (req : WasmRequest) : List (String × String) :=
  (rawHeaders env req).map fun h => (h.1, injectCredentials d.credentials h.2)

theorem injected_eq (env : HttpEnv) (d : StoreData) (req : WasmRequest) : injected env d req =
      ((matching env d req).foldl
          (fun headers cred => cred.headers.foldl (fun headers e => insertEntry e.1 e.2 headers) headers)
          (filledHeaders env d req), (matching env d req).foldl (fun url cred => appendQuery cred.queryParams url)
          (injectCredentials d.credentials req.url)) := by
  unfold injected matching targetHost filledHeaders rawHeaders
  cases hhost : extractHostFromUrl env.parse (injectCredentials d.credentials req.url) with
  | none => simp only [hhost, List.foldl_nil]
  | some host => simp only [hhost, injectHostCredentials_eq]

/-- Headers of the two runs: the same names in the same order, and the same values but for those that are carried. -/
def HeadersAgree (carried : List String) : List (String × String) → List (String × String) → Prop :=
  List.Forall₂ fun h₁ h₂ => h₁.1 = h₂.1 ∧ (h₁.1 ∉ carried → h₁.2 = h₂.2)

theorem HeadersAgree.refl (carried : List String) (headers : List (String × String)) :
    HeadersAgree carried headers headers := List.forall₂_same.mpr fun _ _ => ⟨rfl, fun _ => rfl⟩

variable {headers₁ headers₂ : List (String × String)} {carried : List String}

theorem HeadersAgree.insertEntry (h : HeadersAgree carried headers₁ headers₂) {key : String} (hkey : key ∈ carried)
    (value₁ value₂ : String) :
    HeadersAgree carried (insertEntry key value₁ headers₁) (insertEntry key value₂ headers₂) := by
  induction h with
  | nil => exact .cons ⟨rfl, fun hno => absurd hkey hno⟩ .nil
  | @cons h₁ h₂ rest₁ rest₂ hhead htail ih =>
    unfold WasmTool.insertEntry
    rw [← hhead.1]
    split
    next => exact .cons ⟨rfl, fun hno => absurd hkey hno⟩ htail
    next => exact .cons hhead ih

/-- The headers of one credential. -/
theorem HeadersAgree.insertAll (h : HeadersAgree carried headers₁ headers₂) {es₁ es₂ : List (String × String)}
    (hnames : es₁.map Prod.fst = es₂.map Prod.fst) (hcarried : ∀ name ∈ es₁.map Prod.fst, name ∈ carried) :
    HeadersAgree carried (es₁.foldl (fun headers e => WasmTool.insertEntry e.1 e.2 headers) headers₁)
      (es₂.foldl (fun headers e => WasmTool.insertEntry e.1 e.2 headers) headers₂) := by
  induction es₁ generalizing es₂ headers₁ headers₂ with
  | nil =>
    rw [List.map_nil] at hnames
    rw [List.map_eq_nil_iff.mp hnames.symm]
    exact h
  | cons e rest ih =>
    cases es₂ with
    | nil => cases hnames
    | cons e' rest' =>
      rw [List.map_cons, List.map_cons, List.cons.injEq] at hnames
      rw [List.foldl_cons, List.foldl_cons, ← hnames.1]
      apply ih (h.insertEntry (hcarried _ (by simp)) e.2 e'.2) hnames.2
      exact fun name hname => hcarried name (List.mem_cons_of_mem _ hname)

variable {creds₁ creds₂ : List ResolvedHostCredential}

/-- All headers that carry a credential. -/
theorem headersAgree_foldl (hshapes : List.Forall₂ SameShape creds₁ creds₂)
    (hcarried : ∀ cred ∈ creds₁, ∀ name ∈ cred.headers.map Prod.fst, name ∈ carried)
    (h : HeadersAgree carried headers₁ headers₂) : HeadersAgree carried
      (creds₁.foldl (fun headers cred => cred.headers.foldl (fun headers e =>
        insertEntry e.1 e.2 headers) headers) headers₁)
      (creds₂.foldl (fun headers cred => cred.headers.foldl (fun headers e =>
        insertEntry e.1 e.2 headers) headers) headers₂) := by
  induction hshapes generalizing headers₁ headers₂ with
  | nil => exact h
  | @cons c₁ c₂ rest₁ rest₂ hshape hrest ih =>
    rw [List.foldl_cons, List.foldl_cons]
    apply ih fun cred hcred => hcarried cred (List.mem_cons_of_mem _ hcred)
    exact h.insertAll hshape.headers (hcarried c₁ List.mem_cons_self)

/-- Headers of two runs that visit them in one order. -/
theorem HeadersAgree.visit (rank : String → Nat) (h : HeadersAgree carried headers₁ headers₂) :
    HeadersAgree carried (WasmTool.visit rank headers₁) (WasmTool.visit rank headers₂) := by
  have hinsert : ∀ {h₁ h₂ : String × String} {rest₁ rest₂ : List (String × String)},
      (h₁.1 = h₂.1 ∧ (h₁.1 ∉ carried → h₁.2 = h₂.2)) → HeadersAgree carried rest₁ rest₂ → HeadersAgree carried
        (rest₁.orderedInsert (fun e e' => rank e.1 ≤ rank e'.1) h₁)
        (rest₂.orderedInsert (fun e e' => rank e.1 ≤ rank e'.1) h₂) := by
    intro h₁ h₂ rest₁ rest₂ hhead hrest
    induction hrest with
    | nil => exact .cons hhead .nil
    | @cons e₁ e₂ rest₁ rest₂ he hrest ih =>
      rw [List.orderedInsert_cons, List.orderedInsert_cons, ← hhead.1, ← he.1]
      split
      · exact .cons hhead (.cons he hrest)
      · exact .cons he ih
  unfold WasmTool.visit
  induction h with
  | nil => exact .nil
  | cons hhead _ ih => exact hinsert hhead ih

/-- Headers that no credential is put into are the same. -/
theorem HeadersAgree.filter (h : HeadersAgree carried headers₁ headers₂) :
    headers₁.filter (fun h => decide (h.1 ∉ carried)) = headers₂.filter fun h => decide (h.1 ∉ carried) := by
  induction h with
  | nil => rfl
  | @cons h₁ h₂ rest₁ rest₂ hhead _ ih =>
    rw [List.filter_cons, List.filter_cons, ih, ← hhead.1]
    split
    next hown => rw [Prod.ext hhead.1 (hhead.2 (of_decide_eq_true hown))]
    next => rfl

/-! ## The URLs of the two runs -/

/-- Two parsed URLs that the checks cannot tell apart. -/
structure SameView (u₁ u₂ : Url) : Prop where
  scheme : u₁.scheme = u₂.scheme
  username : u₁.username = u₂.username
  password : u₁.password = u₂.password
  hostStr : u₁.hostStr = u₂.hostStr

def SameParse : Except String Url → Except String Url → Prop
  | .ok u₁, .ok u₂ => SameView u₁ u₂
  | .error e₁, .error e₂ => e₁ = e₂
  | _, _ => False

/-- A query goes from the first `?` to the fragment, and what it says shows nowhere else in the URL. -/
def QueryBlind (parse : UrlParser) : Prop :=
  ∀ base q₁ q₂ fragment : List Char, '?' ∉ base → '#' ∉ base → '#' ∉ q₁ → '#' ∉ q₂ →
    (∀ c ∈ fragment.head?, c = '#') →
    SameParse (parse (String.ofList (base ++ '?' :: q₁ ++ fragment)))
      (parse (String.ofList (base ++ '?' :: q₂ ++ fragment)))

/-- URLs that are equal but for their queries. -/
def QueryTwins (url₁ url₂ : String) : Prop :=
  url₁ = url₂ ∨ ∃ base q₁ q₂ fragment : List Char, ('?' ∉ base ∧ '#' ∉ base ∧ '#' ∉ q₁ ∧ '#' ∉ q₂ ∧
    ∀ c ∈ fragment.head?, c = '#') ∧
    url₁ = String.ofList (base ++ '?' :: q₁ ++ fragment) ∧ url₂ = String.ofList (base ++ '?' :: q₂ ++ fragment)

theorem hexUpper_ne_hash {n : Nat} (h : n < 16) : hexUpper n ≠ '#' := by
  have hall : ∀ n < 16, hexUpper n ≠ '#' := by decide
  exact hall n h

theorem hash_not_mem_escapeOf (b : UInt8) : '#' ∉ escapeOf b := by
  have hb := b.toNat_lt
  have hhigh := hexUpper_ne_hash (n := b.toNat / 16) (by omega)
  have hlow := hexUpper_ne_hash (n := b.toNat % 16) (by omega)
  simp only [escapeOf, List.mem_cons, List.not_mem_nil, or_false, not_or]
  exact ⟨by decide, hhigh.symm, hlow.symm⟩

/-- What is encoded holds no `#`. -/
theorem hash_not_mem_urlencode (s : String) : '#' ∉ (urlencode s).toList := by
  unfold urlencode percentEncode
  rw [String.toList_ofList, List.mem_flatMap]
  rintro ⟨b, -, hmem⟩
  split at hmem
  next c hplain =>
    rw [List.mem_singleton] at hmem
    subst hmem
    simp only at hplain
    split at hplain
    next hb =>
      have hc := Option.some.inj hplain
      have hno : Char.isAlphanum '#' = false := by decide
      simp [isAlphanumByte, hc, hno] at hb
    next => cases hplain
  next => exact hash_not_mem_escapeOf b hmem

variable {separator : Char}

theorem hash_not_mem_queryText (hsep : separator ≠ '#') (params : List (String × String)) :
    '#' ∉ (queryText separator params).toList := by
  induction params generalizing separator with
  | nil => simp [queryText]
  | cons p rest ih =>
    have hname := hash_not_mem_urlencode p.1
    have hvalue := hash_not_mem_urlencode p.2
    have hrest : '#' ∉ (queryText '&' rest).toList := ih (by decide)
    simp only [queryText, String.toList_append, String.toList_ofList, List.mem_append, List.mem_singleton, not_or]
    exact ⟨⟨⟨⟨fun h => hsep h.symm, hname⟩, by decide⟩, hvalue⟩, hrest⟩

/-- A fragment starts where the `#` is. -/
theorem takeWhile_hash {front fragment : List Char} (hfront : '#' ∉ front) (hfragment : ∀ c ∈ fragment.head?, c = '#') :
    (front ++ fragment).takeWhile (· ≠ '#') = front ∧ (front ++ fragment).dropWhile (· ≠ '#') = fragment := by
  have hall : ∀ c ∈ front, decide (c ≠ '#') = true := by
    intro c hc
    rw [decide_eq_true_eq]
    rintro rfl
    exact hfront hc
  rw [List.takeWhile_append_of_pos hall, List.dropWhile_append_of_pos hall]
  cases fragment with
  | nil => simp
  | cons c rest =>
    have hc := hfragment c rfl
    simp [hc]

variable {params : List (String × String)}

/-- A query behind another, or the first one. -/
theorem appendQuery_split (hparams : params ≠ []) (front fragment : List Char) (hfront : '#' ∉ front)
    (hfragment : ∀ c ∈ fragment.head?, c = '#') : appendQuery params (String.ofList (front ++ fragment)) =
      String.ofList (front ++ (queryText (if front.contains '?' then '&' else '?') params).toList ++ fragment) := by
  obtain ⟨htake, hdrop⟩ := takeWhile_hash hfront hfragment
  unfold appendQuery
  rw [if_neg (by rw [List.isEmpty_iff]; exact hparams)]
  apply String.toList_inj.mp
  simp only [String.toList_append, String.toList_ofList, htake, hdrop]

/-- A query text that is not empty begins with its separator. -/
theorem queryText_cons (hsep : separator ≠ '#') (hparams : params ≠ []) :
    ∃ q, (queryText separator params).toList = separator :: q ∧ '#' ∉ q := by
  have hhash := hash_not_mem_queryText hsep params
  cases params with
  | nil => exact absurd rfl hparams
  | cons p rest =>
    have hcons : (queryText separator (p :: rest)).toList =
        separator :: ((urlencode p.1).toList ++ "=".toList ++ (urlencode p.2).toList ++ (queryText '&' rest).toList) := by
      simp only [queryText, String.toList_append, String.toList_ofList, List.cons_append, List.nil_append]
    rw [hcons] at hhash
    exact ⟨_, hcons, fun h => hhash (List.mem_cons_of_mem _ h)⟩

/-- A URL is cut where its fragment begins. -/
theorem exists_front (url : String) : ∃ front fragment : List Char, '#' ∉ front ∧ (∀ c ∈ fragment.head?, c = '#') ∧
    url = String.ofList (front ++ fragment) := by
  refine ⟨url.toList.takeWhile (· ≠ '#'), url.toList.dropWhile (· ≠ '#'), ?_, ?_, ?_⟩
  · intro h
    simpa using List.mem_takeWhile_imp h
  · intro c hc
    have hnot := List.head?_dropWhile_not (· ≠ '#') url.toList
    rw [Option.mem_def.mp hc] at hnot
    simpa using hnot
  · rw [List.takeWhile_append_dropWhile, String.ofList_toList]

variable {url₁ url₂ : String}

theorem QueryTwins.appendQuery (h : QueryTwins url₁ url₂) {params₁ params₂ : List (String × String)}
    (hnames : params₁.map Prod.fst = params₂.map Prod.fst) :
    QueryTwins (appendQuery params₁ url₁) (appendQuery params₂ url₂) := by
  by_cases hempty : params₁ = []
  · rw [hempty, List.map_nil] at hnames
    rw [hempty, List.map_eq_nil_iff.mp hnames.symm]
    exact h
  have hempty₂ : params₂ ≠ [] := by
    rintro rfl
    exact hempty (List.map_eq_nil_iff.mp hnames)
  rcases h with rfl | ⟨base, q₁, q₂, fragment, ⟨hbase, hbase', hq₁, hq₂, hfragment⟩, rfl, rfl⟩
  · obtain ⟨front, fragment, hfront, hfragment, rfl⟩ := exists_front url₁
    rw [appendQuery_split hempty _ _ hfront hfragment, appendQuery_split hempty₂ _ _ hfront hfragment]
    right
    cases hquestion : front.contains '?' with
    | true =>
      -- There was a query before.
      obtain ⟨base, q, rfl, hbase⟩ := List.eq_append_cons_of_mem (List.contains_iff_mem.mp hquestion)
      simp only [List.mem_append, List.mem_cons, not_or] at hfront
      refine ⟨base, q ++ (queryText '&' params₁).toList, q ++ (queryText '&' params₂).toList, fragment,
        ⟨hbase, hfront.1, ?_, ?_, hfragment⟩, ?_, ?_⟩
      · simp [hfront.2.2, hash_not_mem_queryText]
      · simp [hfront.2.2, hash_not_mem_queryText]
      · simp [List.append_assoc]
      · simp [List.append_assoc]
    | false =>
      obtain ⟨q₁, hq₁, hhash₁⟩ := queryText_cons (show '?' ≠ '#' by decide) hempty
      obtain ⟨q₂, hq₂, hhash₂⟩ := queryText_cons (show '?' ≠ '#' by decide) hempty₂
      have hbase : '?' ∉ front := by
        rw [← List.contains_iff_mem, hquestion]
        exact Bool.false_ne_true
      refine ⟨front, q₁, q₂, fragment, ⟨hbase, hfront, hhash₁, hhash₂, hfragment⟩, ?_, ?_⟩
      · rw [if_neg Bool.false_ne_true, hq₁]
      · rw [if_neg Bool.false_ne_true, hq₂]
  · have hfront : ∀ q, '#' ∉ q → '#' ∉ base ++ '?' :: q := by
      intro q hq
      simp [hbase', hq]
    have hquestion : ∀ q, (base ++ '?' :: q).contains '?' = true := by simp
    rw [appendQuery_split hempty _ _ (hfront q₁ hq₁) hfragment, appendQuery_split hempty₂ _ _ (hfront q₂ hq₂) hfragment,
      hquestion, hquestion, if_pos rfl]
    refine .inr ⟨base, q₁ ++ (queryText '&' params₁).toList, q₂ ++ (queryText '&' params₂).toList, fragment,
      ⟨hbase, hbase', ?_, ?_, hfragment⟩, ?_, ?_⟩
    · simp [hq₁, hash_not_mem_queryText]
    · simp [hq₂, hash_not_mem_queryText]
    · simp [List.append_assoc]
    · simp [List.append_assoc]
theorem queryTwins_foldl (hshapes : List.Forall₂ SameShape creds₁ creds₂) (h : QueryTwins url₁ url₂) :
    QueryTwins (creds₁.foldl (fun url cred => appendQuery cred.queryParams url) url₁)
      (creds₂.foldl (fun url cred => appendQuery cred.queryParams url) url₂) := by
  induction hshapes generalizing url₁ url₂ with
  | nil => exact h
  | cons hshape _ ih =>
    rw [List.foldl_cons, List.foldl_cons]
    exact ih (h.appendQuery hshape.queryParams)

theorem foldl_appendQuery_of_empty {creds : List ResolvedHostCredential} (hempty : ∀ cred ∈ creds, cred.queryParams = [])
    (url : String) : creds.foldl (fun url cred => appendQuery cred.queryParams url) url = url := by
  induction creds with
  | nil => rfl
  | cons cred rest ih =>
    have hcred : appendQuery cred.queryParams url = url := by
      unfold appendQuery
      simp [hempty cred List.mem_cons_self]
    rw [List.foldl_cons, hcred]
    exact ih fun c hc => hempty c (List.mem_cons_of_mem _ hc)

/-- The address check reads no more of a URL than its view. -/
theorem rejectPrivateIp_twins {parse : UrlParser} (hparse : QueryBlind parse) (dns : Resolver) (h : QueryTwins url₁ url₂) :
    rejectPrivateIp parse dns url₁ = rejectPrivateIp parse dns url₂ := by
  rcases h with rfl | ⟨base, q₁, q₂, fragment, ⟨hbase, hbase', hq₁, hq₂, hfragment⟩, rfl, rfl⟩
  · rfl
  have hsame := hparse base q₁ q₂ fragment hbase hbase' hq₁ hq₂ hfragment
  unfold rejectPrivateIp
  cases hp₁ : parse (String.ofList (base ++ '?' :: q₁ ++ fragment)) with
  | error e₁ =>
    cases hp₂ : parse (String.ofList (base ++ '?' :: q₂ ++ fragment)) with
    | error e₂ =>
      rw [hp₁, hp₂] at hsame
      have he : e₁ = e₂ := hsame
      rw [he]
    | ok u₂ =>
      rw [hp₁, hp₂] at hsame
      exact hsame.elim
  | ok u₁ =>
    cases hp₂ : parse (String.ofList (base ++ '?' :: q₂ ++ fragment)) with
    | error e₂ =>
      rw [hp₁, hp₂] at hsame
      exact hsame.elim
    | ok u₂ =>
      rw [hp₁, hp₂] at hsame
      have hview : SameView u₁ u₂ := hsame
      simp only [hview.scheme, hview.username, hview.password, hview.hostStr]

/-! ## What is the same in both runs -/

section TwoRuns

variable (hsame : SameButSecrets d₁ d₂)
include hsame

theorem matching_shapes : List.Forall₂ SameShape (matching env d₁ req) (matching env d₂ req) := by
  have hhost : targetHost env d₁ req = targetHost env d₂ req := by
    unfold targetHost
    rw [hsame.credentials]
  unfold matching
  rw [hhost]
  cases targetHost env d₂ req with
  | none => exact .nil
  | some host =>
    refine List.rel_filter ?_ hsame.hostCredentials
    intro c₁ c₂ hshape
    simp only [hshape.hostPatterns]

theorem carriers_same : carriers env d₁ req = carriers env d₂ req := by
  unfold carriers
  have h : List.Forall₂ SameShape (matching env d₁ req) (matching env d₂ req) := matching_shapes hsame
  generalize matching env d₁ req = creds₁ at h ⊢
  generalize matching env d₂ req = creds₂ at h ⊢
  induction h with
  | nil => rfl
  | cons hshape _ ih => rw [List.flatMap_cons, List.flatMap_cons, hshape.headers, ih]

theorem urlCarries_same : urlCarries env d₁ req = urlCarries env d₂ req := by
  unfold urlCarries
  have h : List.Forall₂ SameShape (matching env d₁ req) (matching env d₂ req) := matching_shapes hsame
  generalize matching env d₁ req = creds₁ at h ⊢
  generalize matching env d₂ req = creds₂ at h ⊢
  induction h with
  | nil => rfl
  | cons hshape _ ih =>
    have hempty := congrArg List.isEmpty hshape.queryParams
    simp only [List.isEmpty_map] at hempty
    rw [List.any_cons, List.any_cons, hempty, ih]

theorem checkHttpAllowed_same (url method : String) :
    checkHttpAllowed env d₁ url method = checkHttpAllowed env d₂ url method := by
  unfold checkHttpAllowed
  rw [hsame.http]

theorem recordHttpRequest_same : (recordHttpRequest d₁).1 = (recordHttpRequest d₂).1 := by
  unfold recordHttpRequest
  rw [hsame.http, hsame.count]
  cases d₂.http <;> rfl

theorem reaches_same : Reaches env d₁ req ↔ Reaches env d₂ req := by
  unfold Reaches
  rw [checkHttpAllowed_same hsame, recordHttpRequest_same hsame, hsame.credentials]

theorem headers_agree : HeadersAgree (carriers env d₁ req) (injected env d₁ req).1 (injected env d₂ req).1 := by
  have hfilled : filledHeaders env d₁ req = filledHeaders env d₂ req := by
    unfold filledHeaders
    rw [hsame.credentials]
  rw [injected_eq, injected_eq, hfilled]
  refine headersAgree_foldl (matching_shapes hsame) ?_ (.refl _ _)
  intro cred hcred name hname
  exact List.mem_flatMap.mpr ⟨cred, hcred, hname⟩

theorem urls_twins : QueryTwins (injected env d₁ req).2 (injected env d₂ req).2 := by
  rw [injected_eq, injected_eq, hsame.credentials]
  exact queryTwins_foldl (matching_shapes hsame) (.inl rfl)

/-- Where no credential goes into the URL, it is the same text. -/
theorem urls_same (hurl : urlCarries env d₁ req = false) : (injected env d₁ req).2 = (injected env d₂ req).2 := by
  have huncarried : ∀ d, urlCarries env d req = false → (injected env d req).2 =
    injectCredentials d.credentials req.url := by
    intro d hd
    rw [injected_eq]
    apply foldl_appendQuery_of_empty
    intro cred hcred
    simpa using List.any_eq_false.mp hd cred hcred
  rw [huncarried d₁ hurl, huncarried d₂ (urlCarries_same hsame ▸ hurl), hsame.credentials]

/-- In one order, both runs come to the same text of the tool first. -/
theorem firstOwn_same : firstOwn env d₁ req = firstOwn env d₂ req := by
  have hcarries : carries env d₁ req = carries env d₂ req := by
    funext place
    cases place with
    | url => exact urlCarries_same hsame
    | header name => simp only [carries, carriers_same hsame]
    | body => rfl
  have hfilter : ∀ headers : List (String × String),
      (headers.map fun h => (Place.header h.1, h.2)).filter (fun p => !carries env d₂ req p.1) =
        (headers.filter fun h => decide (h.1 ∉ carriers env d₂ req)).map fun h => (Place.header h.1, h.2) := by
    intro headers
    rw [List.filter_map]
    refine congrArg _ (List.filter_congr fun h _ => ?_)
    show (!decide (h.1 ∈ carriers env d₂ req)) = _
    rw [decide_not]
  have hheaders := ((@headers_agree env d₁ d₂ req hsame).visit env.rank).filter
  rw [carriers_same hsame] at hheaders
  have hurl : ([(Place.url, (injected env d₁ req).2)].filter fun p => !carries env d₂ req p.1) =
      [(Place.url, (injected env d₂ req).2)].filter fun p => !carries env d₂ req p.1 := by
    cases hcarried : urlCarries env d₂ req with
    | true => simp [carries, hcarried]
    | false => rw [urls_same hsame (urlCarries_same hsame ▸ hcarried)]
  unfold firstOwn scannedTexts texts
  rw [hcarries, ← List.singleton_append, ← List.singleton_append (x := (Place.url, (injected env d₂ req).2)),
    List.filter_append, List.filter_append, List.filter_append, List.filter_append, hurl, hfilter, hfilter, hheaders]

end TwoRuns

/-! ## The checks in both runs -/

theorem scanInjected_record : scanInjected env (recordHttpRequest d).2 req = scanInjected env d req := by
  have hinjected : injected env (recordHttpRequest d).2 req = injected env d req := by
    unfold recordHttpRequest
    cases d.http <;> rfl
  unfold scanInjected
  rw [hinjected]

/-- The checks, one after the other. -/
theorem checkRequest_eq : (checkRequest env d req).1 =
    match checkHttpAllowed env d (injectCredentials d.credentials req.url) req.method with
    | .error e => .error ("HTTP not allowed: " ++ e)
    | .ok () =>
      match (recordHttpRequest d).1 with
      | .error e => .error ("Rate limit exceeded: " ++ e)
      | .ok () => scanInjected env d req := by
  rw [← scanInjected_record]
  unfold checkRequest
  cases checkHttpAllowed env d (injectCredentials d.credentials req.url) req.method with
  | error e => rfl
  | ok u =>
    rcases recordHttpRequest d with ⟨recorded, after⟩
    cases recorded with
    | error e => rfl
    | ok u => simp only

theorem checkRequest_of_reaches (h : Reaches env d req) : (checkRequest env d req).1 = scanInjected env d req := by
  obtain ⟨hallowed, hrecord⟩ := h
  rw [checkRequest_eq]
  simp only [hallowed, hrecord]

variable {rank : String → Nat}

theorem checkRequest_of_not_reaches (hsame : SameButSecrets d₁ d₂) (h : ¬ Reaches env d₁ req) :
    (checkRequest env d₁ req).1 = (checkRequest (env.visiting rank) d₂ req).1 := by
  have hallowed₂ : checkHttpAllowed (env.visiting rank) d₂ (injectCredentials d₂.credentials req.url) req.method =
      checkHttpAllowed env d₁ (injectCredentials d₁.credentials req.url) req.method := by
    rw [checkHttpAllowed_same hsame, hsame.credentials]
    rfl
  unfold Reaches at h
  rw [checkRequest_eq, checkRequest_eq, hallowed₂, ← recordHttpRequest_same hsame]
  cases hallowed : checkHttpAllowed env d₁ (injectCredentials d₁.credentials req.url) req.method with
  | error e => rfl
  | ok u =>
    cases hrecord : (recordHttpRequest d₁).1 with
    | error e => rfl
    | ok u' => exact absurd ⟨hallowed, hrecord⟩ h

/-- The errors of the address check are none of the scan's. -/
theorem rejectPrivateIp_error {parse : UrlParser} {dns : Resolver} {url e : String}
    (h : rejectPrivateIp parse dns url = .error e) : e.toList.head? ≠ some 'P' := by
  have hresolved : ∀ (host : String) (ips : List IpAddr) (e : String),
      rejectResolved host ips = .error e → e.toList.head? ≠ some 'P' := by
    intro host ips e h
    induction ips with
    | nil => cases h
    | cons ip rest ih =>
      unfold rejectResolved at h
      split at h
      · cases h
        simp
      · exact ih h
  unfold rejectPrivateIp at h
  repeat' split at h
  all_goals first | exact hresolved _ _ _ h | (obtain rfl := Except.error.inj h; simp) | cases h

/-- Behind the scan, a run goes on with the address. -/
theorem scanInjected_eq : (scanInjected env d req).map (fun _ => ()) =
    match firstSeen env d req with
    | some p => (report env.isWord LeakDetector.new p).mapError fun e => "Potential secret leak blocked: " ++ e.display
    | none => rejectPrivateIp env.parse env.dns (injected env d req).2 := by
  have hscan : LeakDetector.new.scanHttpRequest env.isWord (injected env d req).2 (visit env.rank (injected env d req).1)
      req.body = (firstSeen env d req).elim (.ok ()) (report env.isWord LeakDetector.new) := leakScan_eq
  unfold scanInjected
  simp only
  rw [hscan]
  cases hfirst : firstSeen env d req with
  | some p =>
    obtain ⟨e, he⟩ := report_of_firstSeen hfirst
    simp only [Option.elim_some, he, Except.map, Except.mapError]
  | none => cases rejectPrivateIp env.parse env.dns (injected env d req).2 <;> rfl

/-- The first of a list is the first of those that are left. -/
theorem find?_eq_find?_filter {α : Type} {f q : α → Bool} {as : List α} (h : ∀ a, as.find? f = some a → q a = true) :
    as.find? f = (as.filter q).find? f := by
  induction as with
  | nil => rfl
  | cons a rest ih =>
    cases hf : f a with
    | true =>
      rw [List.find?_cons_of_pos hf] at h ⊢
      rw [List.filter_cons_of_pos (h a rfl), List.find?_cons_of_pos hf]
    | false =>
      have hskip := Bool.not_eq_true _ ▸ hf
      rw [List.find?_cons_of_neg hskip] at h ⊢
      rw [ih h, List.filter_cons]
      split
      · rw [List.find?_cons_of_neg hskip]
      · rfl

theorem firstSeen_of_own (h : Own env d req) : firstSeen env d req = firstOwn env d req :=
  find?_eq_find?_filter fun p hp => by rw [h p hp]; rfl

theorem firstOwn_of_none (h : firstSeen env d req = none) : firstOwn env d req = none :=
  (firstSeen_of_own (fun _ hp => absurd (h.symm.trans hp) nofun)).symm.trans h

/-- The tool with a bearer token for its server. -/
def withBearer (token : String) : StoreData :=
  { exampleTool with
    hostCredentials := [⟨["api.example.com"], [("Authorization", "Bearer " ++ token)], [], token⟩] }

theorem withBearer_sameButSecrets (token₁ token₂ : String) : SameButSecrets (withBearer token₁) (withBearer token₂) :=
  ⟨rfl, rfl, rfl, .cons ⟨rfl, rfl, rfl⟩ .nil⟩

theorem answering_queryBlind (response : RawResponse) : QueryBlind (answering response).parse :=
  fun _ _ _ _ _ _ _ _ _ => ⟨rfl, rfl, rfl, rfl⟩

theorem exampleRequest_clean (response : RawResponse) : WasmClean (answering response) exampleRequest := by
  refine ⟨?_, fun h hmem => ?_, fun bytes hbytes => ?_⟩
  · show ¬ BlockedIn asciiWord "https://api.example.com/".toList
    rw [blockedIn_iff]
    decide +kernel
  · cases hmem
  · cases hbytes

/-- A request with a key in its own URL. -/
def keyInUrl : WasmRequest := ⟨"GET", "https://api.example.com/" ++ String.ofList exampleKey, "", none, none⟩

/-- What the tool is told: the ends of the key. -/
def keyPreview : String :=
  "Potential secret leak blocked: Secret leak blocked: pattern 'header:Authorization' matched " ++
    "'Secret leak blocked: pattern 'aws_access_key' matched 'AKIA********MPLE''"

end Freeclawdia.WasmTool
