/-
# BottledWater.Kafka.Registry — the client of the Avro schema registry.

`kafka/registry.c`.  A schema is posted to the registry under a subject made of the topic name and of
whether it is for keys or rows, and the registry answers with the id it has for that schema.  Every
Avro message in Kafka begins with five bytes, a zero and the id.

The HTTP request itself is a parameter: what `curl_easy_perform` and the JSON library come back with.
-/
import BottledWater.Client.Replication
import BottledWater.Lib.Avro

namespace BottledWater.Kafka

open BottledWater.Client BottledWater.Lib.Avro

/-! ## §1 — Requests and answers -/

/-- A JSON value, as far as the answers of the registry are looked at. -/
inductive Json where
  | object (members : List (String × Json))
  | string (s : String)
  | integer (n : Int)
  | other

/-- `json_object_get`, which is NULL for anything but an object. -/
def Json.get (name : String) : Json → Option Json
  | .object members => members.lookup name
  | _ => none

/-- An HTTP response: the status, and the body if it is JSON. -/
structure HttpResponse where
  code : Int
  body : Option Json

/-- The texts that `registry_error` is called with. -/
inductive RegistryError
  /-- "Schema registry URL is too long: %s" -/
  | urlTooLong
  /-- "Could not encode JSON request for schema registry" -/
  | request
  /-- "Could not send schema to registry: %s" -/
  | send
  /-- "Could not parse schema registry response: %s\n\tResponse text: %.*s" -/
  | parse
  /-- "Schema registry returned HTTP status %ld" -/
  | status (code : Int)
  /-- "Schema registry returned HTTP status %ld: %s" -/
  | statusMessage (code : Int) (message : String)
  /-- "Missing id field in schema registry response: %.*s" -/
  | missingId
  deriving DecidableEq, Repr

/-- `registry_parse_response`.  No response is a `CURLcode` other than `CURLE_OK`. -/
def registryParseResponse : Option HttpResponse → Except RegistryError Int32
  | none => throw .send
  | some ⟨code, none⟩ => throw (if code = 200 then .parse else .status code)
  | some ⟨code, some body⟩ =>
    if code ≠ 200 then
      match body.get "message" with
      | some (.string message) => throw (.statusMessage code message)
      | _ => throw (.status code)
    else
      match body.get "id" with
      | some (.integer id) => pure (Int32.ofInt id)
      | _ => throw .missingId

/-! ## §2 — `schema_registry_request` -/

/-- `schema_registry`. -/
structure SchemaRegistry where
  registryUrl : String
  deriving DecidableEq, Repr

/-- `schema_registry_set_url`.  The character compared with a slash is the one at `strlen(url)`, the NUL
behind the text. -/
def schemaRegistrySetUrl (url : String) : SchemaRegistry :=
  let nul := Char.ofNat 0
  let buf := url.toList ++ [nul]
  let buf := if buf[url.length]? = some '/' then buf.set url.length nul else buf
  ⟨String.ofList (buf.takeWhile (· ≠ nul))⟩

/-- What the registry client gets from other libraries. -/
structure Http where
  /-- `json_pack` and `json_dumps`: the body of the request for a schema text. -/
  requestBody : Bytes → Option Bytes
  /-- `curl_easy_perform`: the response to the request with the given number, to a URL and with a body. -/
  perform : Nat → String → Bytes → Option HttpResponse

/-- The size of the buffer for the URL. -/
def urlSize : Nat := 512

/-- The URL of a subject. -/
def subjectUrl (registry : SchemaRegistry) (name : String) (isKey : Bool) : String :=
  registry.registryUrl ++ "/subjects/" ++ name ++ "-" ++ (if isKey then "key" else "value") ++ "/versions"

/-- `schema_registry_request`: the id for a schema, or nothing if there is no schema. -/
def schemaRegistryRequest (http : Http) (registry : SchemaRegistry) (number : Nat) (name : String)
    (isKey : Bool) : Option Bytes → Except RegistryError (Option Int32)
  | none => pure none
  | some [] => pure none
  | some schemaJson =>
    let url := subjectUrl registry name isKey
    if urlSize ≤ url.utf8ByteSize then throw .urlTooLong
    else
      match http.requestBody schemaJson with
      | none => throw .request
      | some body => do
        let id ← registryParseResponse (http.perform number url body)
        pure (some id)

/-! ## §3 — `schema_registry_encode_msg` -/

/-- `SCHEMA_REGISTRY_MESSAGE_PREFIX_LEN`. -/
def messagePrefixLen : Nat := 5

/-- `add_schema_prefix`: a zero, the id in big-endian byte order, and the bytes. -/
def addSchemaPrefix (schemaId : Int32) (avroBin : Option Bytes) : Option Bytes :=
  avroBin.map fun bin => 0 :: htonlBytes schemaId.toUInt32 ++ bin

/-- A pointer to bytes and a length. -/
structure Buffer where
  ptr : Option Bytes
  len : Nat
  deriving DecidableEq, Repr

/-- `schema_registry_encode_msg`, for key and row.  The lengths are also set if there is no value. -/
def schemaRegistryEncodeMsg (keySchemaId rowSchemaId : Int32) (keyBin rowBin : Option Bytes) :
    Buffer × Buffer :=
  (⟨addSchemaPrefix keySchemaId keyBin, (keyBin.getD []).length + messagePrefixLen⟩,
    ⟨addSchemaPrefix rowSchemaId rowBin, (rowBin.getD []).length + messagePrefixLen⟩)

/-! ## §4 — The address of the registry -/

/-- The URL that `schema_registry_request` sends a schema to, if it sends it. -/
def requestUrl (registry : SchemaRegistry) (name : String) (isKey : Bool) :
    Option Bytes → Except RegistryError (Option String)
  | none => pure none
  | some [] => pure none
  | some _ =>
    let url := subjectUrl registry name isKey
    if urlSize ≤ url.utf8ByteSize then throw .urlTooLong else pure (some url)

/-- What comes back from that URL. -/
def requestAt (http : Http) (number : Nat) (schemaJson : Bytes) (url : String) :
    Except RegistryError Int32 :=
  match http.requestBody schemaJson with
  | none => throw .request
  | some body => registryParseResponse (http.perform number url body)

/-- A request is one of its URL, or none. -/
theorem schemaRegistryRequest_eq (http : Http) (registry : SchemaRegistry) (number : Nat) (name : String)
    (isKey : Bool) (schemaJson : Option Bytes) :
    schemaRegistryRequest http registry number name isKey schemaJson =
      (requestUrl registry name isKey schemaJson >>= fun url =>
        match url with
        | none => pure none
        | some url => some <$> requestAt http number (schemaJson.getD []) url) := by
  match schemaJson with
  | none => rfl
  | some [] => rfl
  | some (b :: text) =>
    simp only [schemaRegistryRequest, requestUrl, requestAt, Option.getD_some]
    split
    · rfl
    · cases http.requestBody (b :: text) with
      | none => rfl
      | some body =>
        cases registryParseResponse (http.perform number (subjectUrl registry name isKey) body) with
        | error err => rfl
        | ok id => rfl

/-- The URL for an address, less the limit on its length. -/
theorem requestUrl_of_ne_nil (registry : SchemaRegistry) (name : String) (isKey : Bool)
    {schemaJson : Option Bytes} (h : schemaJson.getD [] ≠ []) :
    requestUrl registry name isKey schemaJson =
      if urlSize ≤ (subjectUrl registry name isKey).utf8ByteSize then .error .urlTooLong
      else .ok (some (subjectUrl registry name isKey)) := by
  match schemaJson with
  | none => exact absurd rfl h
  | some [] => exact absurd rfl h
  | some (b :: text) => rfl

theorem requestUrl_of_nil (registry : SchemaRegistry) (name : String) (isKey : Bool)
    {schemaJson : Option Bytes} (h : schemaJson.getD [] = []) :
    requestUrl registry name isKey schemaJson = .ok none := by
  match schemaJson with
  | none => rfl
  | some [] => rfl

/-- The address is taken as it is: the character that is compared with a slash is the NUL. -/
theorem schemaRegistrySetUrl_eq {u : String} (hnul : Char.ofNat 0 ∉ u.toList) :
    schemaRegistrySetUrl u = ⟨u⟩ := by
  have hlast : (u.toList ++ [Char.ofNat 0])[u.length]? = some (Char.ofNat 0) := by
    rw [← String.length_toList]
    simp
  have hslash : ¬ some (Char.ofNat 0) = some '/' := by decide
  have htake : (u.toList ++ [Char.ofNat 0]).takeWhile (· ≠ Char.ofNat 0) = u.toList := by
    rw [List.takeWhile_append_of_pos]
    · simp
    · intro c hc
      have hne : c ≠ Char.ofNat 0 := by
        rintro rfl
        exact hnul hc
      simpa using hne
  simp only [schemaRegistrySetUrl, hlast, if_neg hslash, htake, String.ofList_toList]

/-- **`intendedUrl u name isKey schemaJson`** — the URL that a schema is meant to be sent to, for the base
address `u`; nothing is sent without a schema, and a URL that does not fit in the buffer is refused. -/
def intendedUrl (u name : String) (isKey : Bool) (schemaJson : Option Bytes) :
    Except RegistryError (Option String) :=
  let url := u ++ "/subjects/" ++ name ++ (if isKey then "-key" else "-value") ++ "/versions"
  if schemaJson.getD [] = [] then .ok none
  else if urlSize ≤ url.utf8ByteSize then .error .urlTooLong
  else .ok (some url)

theorem subjectUrl_eq (u name : String) (isKey : Bool) :
    subjectUrl ⟨u⟩ name isKey =
      u ++ "/subjects/" ++ name ++ (if isKey then "-key" else "-value") ++ "/versions" := by
  cases isKey with
  | true => simp [subjectUrl, String.append_assoc]
  | false => simp [subjectUrl, String.append_assoc]

/-- With a slash behind the address the URL is one byte longer. -/
theorem subjectUrl_slash_size (u name : String) (isKey : Bool) :
    (subjectUrl ⟨u ++ "/"⟩ name isKey).utf8ByteSize =
      (subjectUrl ⟨u⟩ name isKey).utf8ByteSize + 1 := by
  have hslash : "/".utf8ByteSize = 1 := by decide
  simp only [subjectUrl, String.utf8ByteSize_append, hslash]
  omega

theorem requestUrl_setUrl {u : String} (hnul : Char.ofNat 0 ∉ u.toList) (name : String) (isKey : Bool)
    (schemaJson : Option Bytes) :
    requestUrl (schemaRegistrySetUrl u) name isKey schemaJson = intendedUrl u name isKey schemaJson := by
  rw [schemaRegistrySetUrl_eq hnul]
  simp only [intendedUrl, ← subjectUrl_eq]
  split
  · case isTrue hnil => exact requestUrl_of_nil _ name isKey hnil
  · case isFalse htext => exact requestUrl_of_ne_nil _ name isKey htext

/-- **A trailing slash in the address is not stripped.**  Registries with the addresses `u` and `u/` send
a schema to the same URL exactly if they send none, because there is no schema or because the URL for
`u` alone does not fit in the buffer.  A URL that does not fit is refused, and any other is sent in
full. -/
theorem trailing_slash_iff {u : String} (hnul : Char.ofNat 0 ∉ u.toList) (name : String) (isKey : Bool)
    (schemaJson : Option Bytes) :
    ((requestUrl (schemaRegistrySetUrl u) name isKey schemaJson = intendedUrl u name isKey schemaJson ∧
        requestUrl (schemaRegistrySetUrl (u ++ "/")) name isKey schemaJson =
          intendedUrl u name isKey schemaJson) ↔
      schemaJson.getD [] = [] ∨
        urlSize ≤ (u ++ "/subjects/" ++ name ++ (if isKey then "-key" else "-value") ++
          "/versions").utf8ByteSize) ∧
      ∀ registry, schemaJson.getD [] ≠ [] →
        requestUrl registry name isKey schemaJson =
          if urlSize ≤ (subjectUrl registry name isKey).utf8ByteSize then .error .urlTooLong
          else .ok (some (subjectUrl registry name isKey)) := by
  refine ⟨?_, fun registry => requestUrl_of_ne_nil registry name isKey⟩
  have hnul' : Char.ofNat 0 ∉ (u ++ "/").toList := by
    rw [String.toList_append, List.mem_append, not_or]
    exact ⟨hnul, by decide⟩
  rw [requestUrl_setUrl hnul, schemaRegistrySetUrl_eq hnul', eq_self_iff_true, true_and, ← subjectUrl_eq]
  have hsize := subjectUrl_slash_size u name isKey
  by_cases hnil : schemaJson.getD [] = []
  · simp [requestUrl_of_nil _ name isKey hnil, intendedUrl, hnil]
  · rw [requestUrl_of_ne_nil _ name isKey hnil]
    simp only [intendedUrl, hnil, if_false, false_or, ← subjectUrl_eq]
    by_cases hlong : urlSize ≤ (subjectUrl ⟨u⟩ name isKey).utf8ByteSize
    · have hlong' : urlSize ≤ (subjectUrl ⟨u ++ "/"⟩ name isKey).utf8ByteSize := by omega
      simp only [hlong, hlong', if_true]
    · -- the URL for the address alone is sent, and the other is refused or has a byte more
      simp only [hlong, if_false, iff_false]
      split
      · nofun
      · intro h
        have hurl := Option.some.inj (Except.ok.inj h)
        rw [hurl] at hsize
        omega

theorem trailing_slash_iff_localhost :
    Char.ofNat 0 ∉ "http://localhost:8081".toList ∧
      ¬ (requestUrl (schemaRegistrySetUrl "http://localhost:8081") "users" true (some [107]) =
            intendedUrl "http://localhost:8081" "users" true (some [107]) ∧
          requestUrl (schemaRegistrySetUrl ("http://localhost:8081" ++ "/")) "users" true (some [107]) =
            intendedUrl "http://localhost:8081" "users" true (some [107])) := by
  have hnul : Char.ofNat 0 ∉ "http://localhost:8081".toList := by decide
  refine ⟨hnul, ?_⟩
  rw [(trailing_slash_iff hnul "users" true (some [107])).1]
  decide +kernel

/-- **Two slashes.**  With the address `http://localhost:8081/` the schema of the rows of `users` is sent
to `http://localhost:8081//subjects/users-value/versions`. -/
theorem slash_not_stripped :
    requestUrl (schemaRegistrySetUrl "http://localhost:8081") "users" false (some [117]) =
        .ok (some "http://localhost:8081/subjects/users-value/versions") ∧
      requestUrl (schemaRegistrySetUrl "http://localhost:8081/") "users" false (some [117]) =
        .ok (some "http://localhost:8081//subjects/users-value/versions") := by
  decide +kernel

end BottledWater.Kafka
