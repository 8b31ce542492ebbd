import Arbexpert.Base.HashMap
import Arbexpert.Base.SortedMap
import Arbexpert.Foundation.PairText

/-!
# Signed requests

A request carries its parameters in the query of its URL, in the order of their keys, with a code
that authenticates the text of the other parameters. Keys and values are written as they are. So
the text tells the parameters only when these do not have the characters that hold them together.
-/

namespace Arbexpert.Mexc

open Arbexpert.Base

/-- An error of a request. -/
inductive ExchangeError
  | badRequest (text : String)
  | invalidOrder (text : String)
  | authenticationError (text : String)
  | jsonError (text : String)
  | apiError (text : String)
  | missingCredentials
  deriving DecidableEq

/-- What a request reads of the exchange. -/
structure RequestContext where
  apiKey : Option String
  secret : Option String
  timeOffsetMs : ℤ

/-- What other libraries do for a request: authenticate a text with a key, and write and read
JSON values. -/
structure Libraries where
  hmacSha256 : String → String → Except String (List UInt8)
  toJson : Value → Except String String
  fromJson : String → Except String Value

/-- A request as it is sent. -/
structure HttpRequest where
  method : String
  url : String
  headers : List (String × String)
  body : Option String

/-- The answer to a request, with its body or the error of reading it. -/
structure HttpResponse where
  isSuccess : Bool
  status : String
  text : Except String String

/-- Bytes in hexadecimal digits. -/
def hexEncode (bytes : List UInt8) : String :=
  String.ofList <| bytes.flatMap fun byte =>
    [Nat.digitChar (byte.toNat / 16), Nat.digitChar (byte.toNat % 16)]

/-- The text of pairs: `key=value`, with `&` between them. -/
def joinPairs (pairs : List (String × String)) : String :=
  "&".intercalate (pairs.map fun pair => pair.1 ++ "=" ++ pair.2)

/-- The characters of a pair. -/
def chars (pair : String × String) : List Char × List Char := (pair.1.toList, pair.2.toList)

/-- The pair with some characters. -/
def ofChars (pair : List Char × List Char) : String × String :=
  (String.ofList pair.1, String.ofList pair.2)

/-- The pairs of a text: its pieces between `&`, each split at its first `=`. -/
def splitQuery (query : String) : List (String × String) :=
  (PairText.parse '&' '=' query.toList).map ofChars

/-- A text without the pieces that have a key. -/
def dropPairs (key query : String) : String :=
  String.ofList (PairText.dropKey '&' '=' key.toList query.toList)

/-- A pair whose key has neither of the characters that hold the pairs together, and whose value
does not have the one between the pairs. -/
def Plain (pair : String × String) : Prop :=
  PairText.Clean '&' '=' (chars pair)

/-- Whether a pair is plain is computed. -/
instance (pair : String × String) : Decidable (Plain pair) :=
  inferInstanceAs (Decidable (PairText.Clean _ _ _))

/-- The text of the entries of a map. -/
def queryOf (sorted : BTreeMap String String) : String := joinPairs (entries sorted)

/-- A value, or an error when there is none. -/
def okOr {ε α : Type} (value : Option α) (error : ε) : Except ε α :=
  match value with
  | some value => .ok value
  | none => .error error

/-- The text of a body, empty when there is none. -/
def bodyText (libraries : Libraries) : Option Value → Except ExchangeError String
  | some value => (libraries.toJson value).mapError .jsonError
  | none => .ok ""

namespace RequestContext

variable (s : RequestContext) (libraries : Libraries)

/-- The code that authenticates the text of a map, in hexadecimal digits. -/
def signRequest (sorted : BTreeMap String String) : Except ExchangeError String := do
  let secret ← okOr s.secret .missingCredentials
  let prehash := queryOf sorted
  let mac ← (libraries.hmacSha256 secret prehash).mapError .apiError
  return hexEncode mac

/-- The parameters that are signed: those of the call, with the width of the window and the
time. -/
def signedParams (now : ℤ) (params : HashMap String String) : BTreeMap String String :=
  let localTime := now + s.timeOffsetMs
  (params.insert "recvWindow" "10000").insert "timestamp" (toString localTime)

/-- The request that is sent, or the error that prevents it. -/
def buildRequest (now : ℤ) (url method : String) (params : HashMap String String)
    (body : Option Value) : Except ExchangeError HttpRequest := do
  let sorted := s.signedParams now params
  let signature ← s.signRequest libraries sorted
  let finalQuery := queryOf (sorted.insert "signature" signature)
  let bodyStr ← bodyText libraries body
  let apiKey ← okOr s.apiKey .missingCredentials
  return {
    method
    url := url ++ "?" ++ finalQuery
    headers := [("X-MEXC-APIKEY", apiKey)]
    body := if bodyStr.isEmpty then none else some bodyStr }

end RequestContext

/-- The value of an answer, or an error according to the code in it. -/
def readResponse (libraries : Libraries) (response : HttpResponse) (text : String) :
    Except ExchangeError Value :=
  if response.isSuccess then (libraries.fromJson text).mapError .jsonError
  else
    let code := (libraries.fromJson text).toOption.bind fun value => (value.field "code").asU64
    let err := "API Error " ++ response.status ++ ": " ++ text
    -- a negative code is in none of the ranges
    match code with
    | none => .error (.apiError err)
    | some code =>
      if 10000 ≤ code ∧ code ≤ 19999 then .error (.badRequest err)
      else if 20000 ≤ code ∧ code ≤ 29999 then .error (.authenticationError err)
      else if 30000 ≤ code ∧ code ≤ 39999 then .error (.invalidOrder err)
      else .error (.apiError err)

/-- Send a request and read its answer. -/
def RequestContext.request (s : RequestContext) (libraries : Libraries)
    (send : HttpRequest → Except String HttpResponse) (now : ℤ) (url method : String)
    (params : HashMap String String) (body : Option Value) : Except ExchangeError Value := do
  let request ← s.buildRequest libraries now url method params body
  let response ← (send request).mapError .apiError
  let text ← response.text.mapError .apiError
  readResponse libraries response text

section Texts

variable {pairs earlier later : List (String × String)} {key value : String}

/-- A pair is told by its characters. -/
@[simp] theorem ofChars_chars (pair : String × String) : ofChars (chars pair) = pair := by
  simp [ofChars, chars]

/-- Any characters are those of a pair. -/
@[simp] theorem chars_ofChars (pair : List Char × List Char) : chars (ofChars pair) = pair := by
  simp [ofChars, chars]

/-- A string has some characters exactly if it is made from them. -/
theorem ofList_eq_iff {list : List Char} {text : String} :
    String.ofList list = text ↔ list = text.toList := by
  rw [← String.toList_inj, String.toList_ofList]

/-- The text of pairs in terms of their characters. -/
theorem toList_joinPairs (pairs : List (String × String)) :
    (joinPairs pairs).toList = PairText.render '&' '=' (pairs.map chars) := by
  have hpair (pair : String × String) : (pair.1 ++ "=" ++ pair.2).toList =
      PairText.renderPair '=' (chars pair) := by
    simp [PairText.renderPair, chars]
  simp [joinPairs, PairText.render, hpair, Function.comp_def]

/-- A text is split into some pairs exactly if it is split into their characters. -/
theorem splitQuery_eq_iff {query : String} :
    splitQuery query = pairs ↔ PairText.parse '&' '=' query.toList = pairs.map chars := by
  constructor
  · rintro rfl
    simp [splitQuery, Function.comp_def]
  · intro h
    simp [splitQuery, h, Function.comp_def]

/-- A text of pairs is split into these pairs exactly if they are plain. -/
theorem splitQuery_joinPairs_iff (hpairs : pairs ≠ []) :
    splitQuery (joinPairs pairs) = pairs ↔ ∀ pair ∈ pairs, Plain pair := by
  rw [splitQuery_eq_iff, toList_joinPairs,
    PairText.parse_render_iff (by decide) (by simpa using hpairs)]
  exact List.forall_mem_map

/-- Dropping the pairs of a key that has just joined the others leaves the others exactly if no
piece of their text has this key. -/
theorem dropPairs_joinPairs_iff (hplain : Plain (key, value)) (hkey : key ≠ "")
    (hothers : earlier ++ later ≠ []) :
    dropPairs key (joinPairs (earlier ++ (key, value) :: later)) = joinPairs (earlier ++ later) ↔
      ∀ pair ∈ splitQuery (joinPairs (earlier ++ later)), pair.1 ≠ key := by
  have hkeys : (∀ pair ∈ splitQuery (joinPairs (earlier ++ later)), pair.1 ≠ key) ↔
      ∀ pair ∈ PairText.parse '&' '=' (joinPairs (earlier ++ later)).toList,
        pair.1 ≠ key.toList := by
    rw [splitQuery, List.forall_mem_map]
    exact forall₂_congr fun pair _ => not_congr ofList_eq_iff
  have hdrop : PairText.dropKey '&' '=' key.toList
      (joinPairs (earlier ++ (key, value) :: later)).toList =
        PairText.dropKey '&' '=' key.toList (joinPairs (earlier ++ later)).toList := by
    simp only [toList_joinPairs, List.map_append, List.map_cons]
    exact PairText.dropKey_render (by decide) hplain (by simpa using hothers)
  rw [hkeys, ← PairText.dropKey_eq_self_iff (by simpa using hkey), dropPairs, ofList_eq_iff,
    hdrop]

end Texts

/-- A pair is plain when its key is and its value does not have the character between the
pairs. -/
theorem Plain.of_key {key value : String} (hkey : Plain (key, ""))
    (hvalue : '&' ∉ value.toList) : Plain (key, value) := ⟨hkey.key, hkey.sign, hvalue⟩

/-- A code in hexadecimal digits is plain. -/
theorem plain_signature (bytes : List UInt8) : Plain ("signature", hexEncode bytes) := by
  apply Plain.of_key ⟨by decide, by decide, by decide⟩
  intro h
  simp only [hexEncode, String.toList_ofList, List.mem_flatMap] at h
  obtain ⟨byte, _, hdigit⟩ := h
  simp only [List.mem_cons, List.not_mem_nil, or_false] at hdigit
  rcases hdigit with hhigh | hlow
  · exact Nat.digitChar_ne '&' rfl hhigh.symm
  · exact Nat.digitChar_ne '&' rfl hlow.symm

/-- The digits of a number do not have the character between the pairs. -/
theorem not_mem_repr (n : ℕ) : '&' ∉ n.repr.toList := by
  intro h
  rw [Nat.toList_repr] at h
  exact absurd (Nat.isDigit_of_mem_toDigits (by decide) (by decide) h) (by decide)

/-- A time is plain. -/
theorem plain_timestamp (time : ℤ) : Plain ("timestamp", toString time) := by
  apply Plain.of_key ⟨by decide, by decide, by decide⟩
  rw [Int.toString_eq_repr, Int.repr_eq_if]
  split
  · exact not_mem_repr _
  · rw [String.toList_append, List.mem_append]
    rintro (hsign | hdigits)
    · exact absurd hsign (by decide)
    · exact not_mem_repr _ hdigits

/-- The width of the window is plain. -/
theorem plain_recvWindow : Plain ("recvWindow", "10000") := ⟨by decide, by decide, by decide⟩

section Results

variable {ε δ α β : Type}

/-- A computation that succeeds has a first part that does. -/
theorem exists_of_bind_eq_ok {first : Except ε α} {next : α → Except ε β} {result : β}
    (h : first >>= next = .ok result) : ∃ value, first = .ok value ∧ next value = .ok result := by
  cases first with
  | error error => cases h
  | ok value => exact ⟨value, rfl, h⟩

/-- A value that there is. -/
theorem eq_some_of_okOr {value : Option α} {error : ε} {result : α}
    (h : okOr value error = .ok result) : value = some result := by
  cases value with
  | none => cases h
  | some value => exact congrArg some (Except.ok.inj h)

/-- A success does not depend on how errors are reported. -/
theorem eq_ok_of_mapError {f : ε → δ} {first : Except ε α} {result : α}
    (h : first.mapError f = .ok result) : first = .ok result := by
  cases first with
  | error error => cases h
  | ok value => exact congrArg Except.ok (Except.ok.inj h)

end Results

/-- The parameters of a call are plain, apart from those that the request sets itself. -/
def PlainParams (params : HashMap String String) : Prop :=
  ∀ key value, params.lookup key = some value → key ≠ "recvWindow" → key ≠ "timestamp" →
    Plain (key, value)

namespace RequestContext

variable {s : RequestContext} {libraries : Libraries} {now : ℤ} {url method : String}
  {params : HashMap String String} {body : Option Value} {http : HttpRequest}

/-- The time is signed. -/
theorem lookup_timestamp : (s.signedParams now params).lookup "timestamp" =
    some (toString (now + s.timeOffsetMs)) := Finmap.lookup_insert _

/-- The width of the window is signed. -/
theorem lookup_recvWindow : (s.signedParams now params).lookup "recvWindow" = some "10000" := by
  rw [signedParams, Finmap.lookup_insert_of_ne _ (by decide), Finmap.lookup_insert]

/-- Another parameter is signed as the call gives it. -/
theorem lookup_signedParams {key : String} (hwindow : key ≠ "recvWindow")
    (htime : key ≠ "timestamp") : (s.signedParams now params).lookup key = params.lookup key := by
  rw [signedParams, Finmap.lookup_insert_of_ne _ htime, Finmap.lookup_insert_of_ne _ hwindow]

/-- What is signed is not empty. -/
theorem entries_signedParams_ne_nil : entries (s.signedParams now params) ≠ [] := by
  have htime : ("timestamp", toString (now + s.timeOffsetMs)) ∈
      entries (s.signedParams now params) := mem_entries.mpr lookup_timestamp
  exact List.ne_nil_of_mem htime

/-- What is signed is plain exactly if the parameters of the call are. -/
theorem plain_signedParams_iff :
    (∀ pair ∈ entries (s.signedParams now params), Plain pair) ↔ PlainParams params := by
  constructor
  · intro h key value hvalue hwindow htime
    apply h (key, value)
    rw [mem_entries, lookup_signedParams hwindow htime]
    exact hvalue
  · rintro h ⟨key, value⟩ hpair
    have hvalue : (s.signedParams now params).lookup key = some value := mem_entries.mp hpair
    by_cases htime : key = "timestamp"
    · subst htime
      rw [lookup_timestamp] at hvalue
      rw [← Option.some.inj hvalue]
      exact plain_timestamp _
    · by_cases hwindow : key = "recvWindow"
      · subst hwindow
        rw [lookup_recvWindow] at hvalue
        rw [← Option.some.inj hvalue]
        exact plain_recvWindow
      · rw [lookup_signedParams hwindow htime] at hvalue
        exact h key value hvalue hwindow htime

/-- The text of what is signed is split into it exactly if the parameters of the call are plain. -/
theorem splitQuery_signedParams_iff :
    splitQuery (queryOf (s.signedParams now params)) = entries (s.signedParams now params) ↔
      PlainParams params :=
  (splitQuery_joinPairs_iff entries_signedParams_ne_nil).trans plain_signedParams_iff

/-- Plain parameters have the same text only when the same is signed. -/
theorem signedParams_eq_of_queryOf_eq {others : HashMap String String} {later : ℤ}
    (hparams : PlainParams params) (hothers : PlainParams others)
    (hsame : queryOf (s.signedParams later others) = queryOf (s.signedParams now params)) :
    s.signedParams later others = s.signedParams now params := by
  apply entries_injective
  rw [← splitQuery_signedParams_iff.mpr hothers, hsame, splitQuery_signedParams_iff.mpr hparams]

/-- A code is that of the text of a map under the secret. -/
theorem code_of_signRequest {sorted : BTreeMap String String} {signature : String}
    (h : s.signRequest libraries sorted = .ok signature) : ∃ secret mac,
      s.secret = some secret ∧ libraries.hmacSha256 secret (queryOf sorted) = .ok mac ∧
        signature = hexEncode mac := by
  obtain ⟨secret, hsecret, h⟩ := exists_of_bind_eq_ok h
  obtain ⟨mac, hmac, h⟩ := exists_of_bind_eq_ok h
  exact ⟨secret, mac, eq_some_of_okOr hsecret, eq_ok_of_mapError hmac, (Except.ok.inj h).symm⟩

/-- The URL of a request has the text of what is signed and its code. -/
theorem url_of_buildRequest (h : s.buildRequest libraries now url method params body = .ok http) :
    ∃ signature, s.signRequest libraries (s.signedParams now params) = .ok signature ∧
      http.url = url ++ "?" ++
        queryOf ((s.signedParams now params).insert "signature" signature) := by
  obtain ⟨signature, hsignature, h⟩ := exists_of_bind_eq_ok h
  obtain ⟨bodyStr, _, h⟩ := exists_of_bind_eq_ok h
  obtain ⟨apiKey, _, h⟩ := exists_of_bind_eq_ok h
  rw [← Except.ok.inj h]
  exact ⟨signature, hsignature, rfl⟩

/-- The text that a request authenticates has the pairs of what is signed, and the query that it
sends has the code among them. Dropping the code from the query leaves the authenticated text
exactly if no piece of it has the same key, and splitting this text recovers what is signed
exactly if the parameters of the call are plain. Then the code can be dropped, and other plain
parameters have the same text only when the same is signed. -/
theorem signed_query_exact (hsignature : params.lookup "signature" = none)
    (hbuild : s.buildRequest libraries now url method params body = .ok http) :
    ∃ secret mac earlier later, s.secret = some secret ∧
      libraries.hmacSha256 secret (joinPairs (earlier ++ later)) = .ok mac ∧
      entries (s.signedParams now params) = earlier ++ later ∧
      http.url = url ++ "?" ++ joinPairs (earlier ++ ("signature", hexEncode mac) :: later) ∧
      (dropPairs "signature" (joinPairs (earlier ++ ("signature", hexEncode mac) :: later)) =
          joinPairs (earlier ++ later) ↔
        ∀ pair ∈ splitQuery (joinPairs (earlier ++ later)), pair.1 ≠ "signature") ∧
      (splitQuery (joinPairs (earlier ++ later)) = earlier ++ later ↔ PlainParams params) ∧
      (PlainParams params →
        dropPairs "signature" (joinPairs (earlier ++ ("signature", hexEncode mac) :: later)) =
            joinPairs (earlier ++ later) ∧
          ∀ time others, PlainParams others →
            queryOf (s.signedParams time others) = joinPairs (earlier ++ later) →
              s.signedParams time others = s.signedParams now params) := by
  obtain ⟨_, hcode, hurl⟩ := url_of_buildRequest hbuild
  obtain ⟨secret, mac, hsecret, hmac, rfl⟩ := code_of_signRequest hcode
  have hnew : (s.signedParams now params).lookup "signature" = none := by
    rw [lookup_signedParams (by decide) (by decide), hsignature]
  obtain ⟨earlier, later, hentries, hinsert⟩ := entries_insert hnew (hexEncode mac)
  have hsplit : splitQuery (queryOf (s.signedParams now params)) =
      entries (s.signedParams now params) ↔ PlainParams params := splitQuery_signedParams_iff
  have hothers : earlier ++ later ≠ [] := hentries ▸ entries_signedParams_ne_nil
  have hdrop := dropPairs_joinPairs_iff (plain_signature mac) (by decide) hothers
  rw [queryOf, hentries] at hmac hsplit
  rw [queryOf, hinsert] at hurl
  refine ⟨secret, mac, earlier, later, hsecret, hmac, hentries, hurl, hdrop, hsplit,
    fun hplain => ⟨hdrop.mpr ?_, fun time others hplainOthers hsame => ?_⟩⟩
  · rw [hsplit.mpr hplain, ← hentries]
    intro pair hpair hkey
    have hvalue := mem_entries.mp hpair
    rw [hkey, hnew] at hvalue
    cases hvalue
  · apply signedParams_eq_of_queryOf_eq hplain hplainOthers
    rw [hsame, queryOf, hentries]

/-- An exchange with credentials, whose clock is right. -/
def exampleContext : RequestContext := ⟨some "key", some "secret", 0⟩

/-- The code of `a=1&b=2&recvWindow=10000&timestamp=0` under this secret. No JSON is used. -/
def exampleLibraries : Libraries where
  hmacSha256 _ _ :=
    .ok [120, 206, 182, 242, 219, 178, 213, 26, 53, 217, 27, 126, 28, 148, 179, 162, 109, 91,
      235, 115, 233, 220, 201, 62, 189, 172, 126, 161, 238, 219, 81, 54]
  toJson _ := .error "no value"
  fromJson _ := .error "no text"

/-- One parameter whose value has the text of another one. -/
def splittingParams : HashMap String String := (∅ : HashMap String String).insert "a" "1&b=2"

/-- Two parameters. -/
def separateParams : HashMap String String :=
  ((∅ : HashMap String String).insert "b" "2").insert "a" "1"

/-- The entries of what is signed for the one parameter. -/
theorem entries_splittingParams : entries (exampleContext.signedParams 0 splittingParams) =
    [("a", "1&b=2"), ("recvWindow", "10000"), ("timestamp", "0")] :=
  entries_eq_of_keys (by decide +kernel) (by decide +kernel) (by decide +kernel)

/-- The entries of what is signed for the two parameters. -/
theorem entries_separateParams : entries (exampleContext.signedParams 0 separateParams) =
    [("a", "1"), ("b", "2"), ("recvWindow", "10000"), ("timestamp", "0")] :=
  entries_eq_of_keys (by decide +kernel) (by decide +kernel) (by decide +kernel)

/-- Different parameters are signed with the same text, which is split into the two ones. -/
theorem signed_query_ambiguous :
    splittingParams.lookup "signature" = none ∧ separateParams.lookup "signature" = none ∧
      exampleContext.signedParams 0 splittingParams ≠
        exampleContext.signedParams 0 separateParams ∧
      queryOf (exampleContext.signedParams 0 splittingParams) =
        queryOf (exampleContext.signedParams 0 separateParams) ∧
      splitQuery (queryOf (exampleContext.signedParams 0 splittingParams)) ≠
        entries (exampleContext.signedParams 0 splittingParams) := by
  rw [queryOf, queryOf, entries_splittingParams, entries_separateParams]
  refine ⟨by decide +kernel, by decide +kernel, fun hsame => ?_, by decide +kernel,
    by decide +kernel⟩
  have hentries := congrArg entries hsame
  rw [entries_splittingParams, entries_separateParams] at hentries
  exact absurd hentries (by decide)

/-- The two parameters are plain. -/
theorem plain_separateParams : PlainParams separateParams := by
  have hentries : ∀ pair ∈ entries (exampleContext.signedParams 0 separateParams), Plain pair := by
    rw [entries_separateParams]
    decide
  exact plain_signedParams_iff.mp hentries

/-- The request with the two parameters is sent, the text that it authenticates is split into
them, and its code can be dropped. -/
theorem separateParams_signed : ∃ http, exampleContext.buildRequest exampleLibraries 0
    "https://api.mexc.com/api/v3/allOrders" "GET" separateParams none = .ok http ∧
      splitQuery (queryOf (exampleContext.signedParams 0 separateParams)) =
        [("a", "1"), ("b", "2"), ("recvWindow", "10000"), ("timestamp", "0")] ∧
      ∃ query, http.url = "https://api.mexc.com/api/v3/allOrders" ++ "?" ++ query ∧
        dropPairs "signature" query = "a=1&b=2&recvWindow=10000&timestamp=0" := by
  obtain ⟨http, hbuild⟩ : ∃ http, exampleContext.buildRequest exampleLibraries 0
      "https://api.mexc.com/api/v3/allOrders" "GET" separateParams none = .ok http := ⟨_, rfl⟩
  obtain ⟨_, mac, earlier, later, _, _, hentries, hurl, _, hsplit, hplain⟩ :=
    signed_query_exact (by decide +kernel) hbuild
  rw [← hentries, ← queryOf] at hsplit hplain
  have htext : queryOf (exampleContext.signedParams 0 separateParams) =
      "a=1&b=2&recvWindow=10000&timestamp=0" := by
    rw [queryOf, entries_separateParams]
    decide +kernel
  refine ⟨http, hbuild, ?_, _, hurl, ?_⟩
  · rw [hsplit.mpr plain_separateParams, entries_separateParams]
  · rw [(hplain plain_separateParams).1, htext]

end RequestContext

end Arbexpert.Mexc
