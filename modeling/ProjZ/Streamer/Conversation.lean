import ProjZ.Streamer.ClientThread

/-!
# What a client is answered

`client_thread` answers the lines that a client has sent, whatever the pieces they arrive in
(`clientThread_eq`, `clientThread_pieces`): a first line that says what is asked, and header
lines up to an empty one, of which the last `Authorization` counts (`foldl_heard_credentials`).
-/

namespace ProjZ

namespace Httpd

open Ascii CString Lines

/-! ## The request line -/

/-- A request of this type, with what belongs to it. -/
def requestOf (type : Answer) (parameter query_string : Option (List UInt8)) : Request :=
  { initRequest with type := type, parameter := parameter, query_string := query_string }

/-- The types of request that need no parameter and may have the number of a plugin. -/
def Answer.isNumbered : Answer → Bool
  | .snapshot => true
  | .stream => true
  | .inputJson => true
  | .outputJson => true
  | _ => false

/-- What can be asked. The query of a script has been copied without its `NUL`. -/
inductive Understood : Asked → Prop where
  | numbered {type : Answer} (h : type.isNumbered = true) :
    Understood (.request (requestOf type none none) true)
  | program : Understood (.request (requestOf .programJson none none) false)
  | take {s : List UInt8} (hs : ∀ c ∈ s, c ≠ 0) :
    Understood (.request (requestOf .take (some s) none) true)
  | command (s : List UInt8) : Understood (.request (requestOf .command (some s) none) false)
  | file {name : List UInt8} (hname : ∀ c ∈ name, c ∈ fileChars) :
    Understood (.request (requestOf .file (some name) none) false)
  | cgi {name : List UInt8} (hname : ∀ c ∈ name, c ∈ fileChars) :
    Understood (.request (requestOf .cgi (some name) (some (literal " " ++ [0]))) false)
  | query {name query : List UInt8} (hquery : ∀ c ∈ query, c ∈ queryChars) :
    Understood (.request (requestOf .cgi (some name) (some query)) false)
  | malformed : Understood (.refused 400 (literal "Malformed HTTP request"))
  | escapes : Understood
    (.refused 500 (literal "could not properly unescape command parameter string"))

/-- What is accepted of a text consists of accepted characters. -/
theorem mem_of_mem_acceptedPart {pb accept : List UInt8} {c : UInt8}
    (h : c ∈ acceptedPart pb accept) : c ∈ accept := mem_of_mem_take (Nat.min_le_left _ _) h

/-- `'\0'` is not accepted. -/
theorem commandChars_ne_zero : ∀ c ∈ commandChars, c ≠ 0 :=
  List.all_iff_forall_prop.mp (by decide +kernel)

/-- The memory of the parameter is not left. -/
theorem withParameter_cases (type : Answer) (query_suffixed : Bool) (pb : List UInt8) :
    (∃ s, (∀ c ∈ s, c ≠ 0) ∧ withParameter type query_suffixed pb =
      some (.request (requestOf type (some s) none) query_suffixed)) ∨
    withParameter type query_suffixed pb =
      some (.refused 500 (literal "could not properly unescape command parameter string")) := by
  have hzero : ∀ c ∈ acceptedPart pb commandChars, c ≠ 0 :=
    fun c hc => commandChars_ne_zero c (mem_of_mem_acceptedPart hc)
  have hmem : (allocated (acceptedPart pb commandChars)).bytes =
      acceptedPart pb commandChars ++ 0 :: [] := rfl
  have houtcome := unescape_eq hmem hzero
  unfold withParameter
  generalize unescape (allocated (acceptedPart pb commandChars)) = r at houtcome ⊢
  generalize PercentEncoding.decode (acceptedPart pb commandChars) = d at houtcome
  cases houtcome with
  | done rest bytes => exact .inl ⟨_, cstr_ne_zero _, rfl⟩
  | malformed => exact .inr rfl

/-- A request for a file or a script. -/
theorem withFile_understood (pb : List UInt8) :
    Understood (.request (withFile pb) false) := by
  have hname : ∀ c ∈ acceptedPart pb fileChars, c ∈ fileChars := fun c => mem_of_mem_acceptedPart
  unfold withFile
  dsimp only
  split
  next =>
    split
    next pb _ => exact .query fun c => mem_of_mem_take (Nat.le_refl _)
    next => exact .cgi hname
  next => exact .file hname

/-- **Every request line is understood**, without an access outside the memory of the request. -/
theorem determine_cases (buffer : List UInt8) :
    ∃ a, determine buffer = some a ∧ Understood a := by
  unfold determine
  repeat' split
  next => exact ⟨_, rfl, .numbered rfl⟩
  next => exact ⟨_, rfl, .numbered rfl⟩
  next pb _ =>
    obtain ⟨s, hs, h⟩ | h := withParameter_cases .take true (pb.drop 17)
    · exact ⟨_, h, .take hs⟩
    · exact ⟨_, h, .escapes⟩
  next => exact ⟨_, rfl, .numbered rfl⟩
  next => exact ⟨_, rfl, .numbered rfl⟩
  next => exact ⟨_, rfl, .program⟩
  next pb _ =>
    obtain ⟨s, -, h⟩ | h := withParameter_cases .command false (pb.drop 20)
    · exact ⟨_, h, .command s⟩
    · exact ⟨_, h, .escapes⟩
  next pb _ => exact ⟨_, rfl, withFile_understood _⟩
  next => exact ⟨_, rfl, .malformed⟩

/-! ## The header lines -/

/-- The credentials in a header line. -/
def authorization (line : List UInt8) : Option (List UInt8) :=
  if literal "User-Agent: " <:+: cstr line then none
  else if literal "Authorization: Basic " <:+: cstr line then some (decoded (cstr (line.drop 21)))
  else none

/-- What `header` makes of a request. -/
def heard (req : Request) (line : List UInt8) : Request :=
  { req with
    client := if literal "User-Agent: " <:+: cstr line then some (cstr (line.drop 12))
      else req.client
    credentials := (authorization line).or req.credentials }

/-- A header line never fails. -/
theorem header_eq (req : Request) (line : List UInt8) :
    header req line = some (heard req line) := by
  unfold header heard authorization
  simp only [strstr_isSome_iff]
  by_cases hclient : literal "User-Agent: " <:+: cstr line
  · simp only [if_pos hclient, Option.none_or]
  · simp only [if_neg hclient]
    by_cases hauth : literal "Authorization: Basic " <:+: cstr line
    · -- the credentials are decoded in memory of their own, which is enough
      have hmem : (allocated (cstr (line.drop 21))).bytes = cstr (line.drop 21) ++ 0 :: [] := rfl
      obtain ⟨mem, hdecode, hcstr⟩ := cstr_decodeBase64 hmem (cstr_ne_zero _)
      simp only [if_pos hauth, hdecode, Option.bind_eq_bind, Option.bind_some, hcstr,
        Option.some_or]
    · simp only [if_neg hauth, Option.none_or]

/-- The header lines: up to the first one behind which no more follow. -/
def headerLines : List (List UInt8) → Option (List (List UInt8))
  | [] => none
  | line :: ls => if More line then (headerLines ls).map (line :: ·) else some [line]

/-- The request after its header lines. -/
def headers (req : Request) (ls : List (List UInt8)) : Option Request :=
  (headerLines ls).map fun hs => hs.foldl heard req

/-- The header ends with the first line that is none. -/
theorem headers_cons (req : Request) (line : List UInt8) (ls : List (List UInt8)) :
    headers req (line :: ls) =
      if More line then headers (heard req line) ls else some (heard req line) := by
  unfold headers
  rw [headerLines]
  split
  next => rw [Option.map_map]; rfl
  next => rfl

/-- Reading a line takes one line off what the socket still holds. -/
theorem readline_eq (conn : Connection) :
    lines (BUFFER_SIZE - 1) conn.stream = (readline (BUFFER_SIZE - 1) conn).elim [] fun r =>
      r.1 :: lines (BUFFER_SIZE - 1) r.2.stream := readline_lines (by decide) conn

/-- With enough fuel for the lines there are, the loop reads the header. -/
theorem readHeaders_eq {fuel : Nat} {req : Request} {conn : Connection}
    (h : (lines (BUFFER_SIZE - 1) conn.stream).length < fuel) :
    readHeaders fuel req conn = some (headers req (lines (BUFFER_SIZE - 1) conn.stream)) := by
  induction fuel generalizing req conn with
  | zero => exact absurd h (Nat.not_lt_zero _)
  | succ fuel ih =>
    have hlines := readline_eq conn
    unfold readHeaders
    cases hread : readline (BUFFER_SIZE - 1) conn with
    | none =>
      rw [hread] at hlines
      rw [hlines]
      rfl
    | some r =>
      rw [hread] at hlines
      rw [hlines] at h ⊢
      show (header req r.1).bind _ = some (headers req (r.1 :: lines (BUFFER_SIZE - 1) r.2.stream))
      rw [header_eq, Option.bind_some, headers_cons]
      by_cases hmore : More r.1
      · rw [if_pos hmore, if_pos hmore, ih (Nat.lt_of_succ_lt_succ h)]
      · rw [if_neg hmore, if_neg hmore]

/-- The last line of credentials counts. -/
theorem foldl_heard_credentials (hs : List (List UInt8)) (req : Request) :
    (hs.foldl heard req).credentials =
      (hs.filterMap authorization).getLast?.or req.credentials := by
  induction hs generalizing req with
  | nil => rfl
  | cons line hs ih =>
    rw [List.foldl_cons, ih]
    show Option.or _ ((authorization line).or req.credentials) = _
    cases hline : authorization line with
    | none => rw [List.filterMap_cons_none hline, Option.none_or]
    | some cred =>
      rw [List.filterMap_cons_some hline, List.getLast?_cons, Option.some_or, Option.some_or]
      cases (hs.filterMap authorization).getLast? with
      | none => rfl
      | some c => rfl

/-- Header lines do not change what is asked for. -/
theorem foldl_heard_rest (hs : List (List UInt8)) (req : Request) :
    (hs.foldl heard req).type = req.type ∧ (hs.foldl heard req).parameter = req.parameter ∧
      (hs.foldl heard req).query_string = req.query_string := by
  induction hs generalizing req with
  | nil => exact ⟨rfl, rfl, rfl⟩
  | cons line hs ih => exact ih (heard req line)

/-! ## The conversation -/

/-- What `client_thread` answers the lines of a client. -/
def converse (pc : Context) : List (List UInt8) → Option (List Reply)
  | [] => some []
  | line :: ls => do
    match ← determine (cstr line) with
    | .refused which message => sendError which message
    | .request req query_suffixed =>
      let input_number := if query_suffixed then inputNumber (cstr line) else 0
      match headers req ls with
      | none => some []
      | some req => answer pc req query_suffixed input_number

/-- The lines that a client has sent. -/
def sentLines (socket : List Poll) : List (List UInt8) := lines (BUFFER_SIZE - 1) (arriving socket)

/-- **The answer depends on nothing but the bytes that arrive in time**: however they are cut,
every line is taken out of the buffer as it was sent. -/
theorem clientThread_eq (pc : Context) (socket : List Poll) :
    clientThread pc socket = converse pc (sentLines socket) := by
  have hlines := readline_eq ⟨socket, .init⟩
  have hstream : Connection.stream ⟨socket, .init⟩ = arriving socket := by
    rw [Connection.stream, Iobuffer.ahead_init, List.nil_append]
  rw [hstream] at hlines
  unfold clientThread sentLines
  cases hread : readline (BUFFER_SIZE - 1) ⟨socket, .init⟩ with
  | none =>
    rw [hread] at hlines
    rw [hlines]
    rfl
  | some r =>
    rw [hread] at hlines
    rw [hlines]
    show _ = converse pc (r.1 :: lines (BUFFER_SIZE - 1) r.2.stream)
    obtain ⟨a, ha, -⟩ := determine_cases (cstr r.1)
    unfold converse
    simp only [ha, Option.bind_eq_bind, Option.bind_some]
    cases a with
    | refused which message => rfl
    | request req query_suffixed =>
      -- a line has at least one byte, so the bytes are enough fuel
      have hfuel : (lines (BUFFER_SIZE - 1) r.2.stream).length < r.2.stream.length + 1 :=
        Nat.lt_succ_of_le (length_linesFrom_le _ _ _)
      cases hreq : headers req (lines (BUFFER_SIZE - 1) r.2.stream) with
      | none => simp only [readHeaders_eq hfuel, hreq, Option.bind_some]
      | some req => simp only [readHeaders_eq hfuel, hreq, Option.bind_some]

/-- **Two clients that send the same bytes get the same answer**, in whatever pieces the bytes
arrive, and whether the connection is silent or fails behind them. -/
theorem clientThread_pieces (pc : Context) {socket socket' : List Poll}
    (h : arriving socket = arriving socket') :
    clientThread pc socket = clientThread pc socket' := by
  rw [clientThread_eq, clientThread_eq, sentLines, sentLines, h]

/-- A server with one camera. -/
def oneCamera (credentials : Option (List UInt8)) : Context where
  conf := ⟨8080, credentials, none, true⟩
  pglobal := ⟨[⟨none, none⟩], []⟩
  opens := fun _ => false
  runs := fun _ => false

/-- A request line in two pieces, and in one. -/
theorem clientThread_twoPieces :
    clientThread (oneCamera none)
        [.data [71, 69] (by decide) (by decide), .data [84, 10, 13, 10] (by decide) (by decide)] =
      clientThread (oneCamera none)
        [.data [71, 69, 84, 10, 13, 10] (by decide) (by decide), .failed] :=
  clientThread_pieces _ rfl

end Httpd

end ProjZ
