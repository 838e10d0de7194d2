import ProjZ.Streamer.Serving

/-!
# The request of a viewer

A viewer asks for `/?action=stream`, with header lines of its own. It is sent the stream of the
first camera if it presents the credentials that are configured (`streamed_iff`); a viewer that
sends them as `Basic` credentials does (`login`).
-/

namespace ProjZ

namespace Httpd

open Ascii CString Lines

/-- A header line that fits the buffer of `client_thread`. -/
structure HeaderLine (line : List UInt8) : Prop where
  whole : newline ∉ line
  nonempty : line ≠ []
  length : line.length + 2 < BUFFER_SIZE

/-- The first line of a request for the stream. -/
def requestLine : List UInt8 := literal "GET /?action=stream HTTP/1.1"

/-- A request for the stream, with these header lines. -/
def streamRequest (hs : List (List UInt8)) : List UInt8 :=
  JavaProperties.crlf (requestLine :: (hs ++ [[]]))

/-- The lines of a text, as `_readline` reads them. -/
theorem lines_crlf {ls : List (List UInt8)}
    (h : ∀ line ∈ ls, newline ∉ line ∧ line.length + 2 < BUFFER_SIZE) (rest : List UInt8) :
    lines (BUFFER_SIZE - 1) (JavaProperties.crlf ls ++ rest) =
      ls.map (· ++ [13, newline]) ++ lines (BUFFER_SIZE - 1) rest := by
  have hflat : JavaProperties.crlf ls =
      (ls.map (· ++ [13])).flatMap fun line => line ++ [newline] := by
    unfold JavaProperties.crlf
    rw [List.flatMap_map]
    refine List.flatMap_congr fun line _ => ?_
    rw [List.append_assoc]
    rfl
  have hmap : (ls.map (· ++ [13])).map (· ++ [newline]) = ls.map (· ++ [13, newline]) := by
    rw [List.map_map]
    refine List.map_congr_left fun line _ => ?_
    exact List.append_assoc line [13] [newline]
  have hshort : ∀ line ∈ ls.map (· ++ [13]), newline ∉ line ∧ line.length < BUFFER_SIZE - 1 := by
    intro line hline
    obtain ⟨l, hl, rfl⟩ := List.mem_map.mp hline
    obtain ⟨hnewline, hlen⟩ := h l hl
    refine ⟨?_, ?_⟩
    · rw [List.mem_append, not_or]
      exact ⟨hnewline, by decide⟩
    · rw [List.length_append, List.length_singleton]
      omega
  rw [hflat, lines_flatMap hshort, hmap]

/-- Behind a line that is not empty more lines follow. -/
theorem HeaderLine.more {line : List UInt8} (h : HeaderLine line) :
    More (line ++ [13, newline]) := by
  have hne := h.nonempty
  have hwhole := h.whole
  match line, hne with
  | [c], _ => exact ⟨Nat.lt_succ_self 2, fun heq => by cases heq⟩
  | c :: d :: line, _ =>
    have hlen : 2 < (c :: d :: line ++ [13, newline]).length := by
      simp only [List.length_append, List.length_cons]
      omega
    refine ⟨hlen, fun heq => ?_⟩
    have hd : d = newline := by
      simp only [List.cons_append, List.take_succ_cons, List.take_zero] at heq
      injection heq with _ heq
      injection heq with heq _
    exact hwhole (hd ▸ List.mem_cons_of_mem c List.mem_cons_self)

/-- The header lines end with the empty one. -/
theorem headerLines_end {hs : List (List UInt8)} (h : ∀ line ∈ hs, HeaderLine line)
    (rest : List (List UInt8)) :
    headerLines (hs.map (· ++ [13, newline]) ++ [13, newline] :: rest) =
      some (hs.map (· ++ [13, newline]) ++ [[13, newline]]) := by
  induction hs with
  | nil =>
    rw [List.map_nil, List.nil_append, headerLines, if_neg (by decide)]
    rfl
  | cons line hs ih =>
    obtain ⟨hline, hhs⟩ := List.forall_mem_cons.mp h
    rw [List.map_cons, List.cons_append, headerLines, if_pos hline.more, ih hhs]
    rfl

/-- The first camera is asked for. -/
theorem determine_requestLine :
    determine (cstr (requestLine ++ [13, newline])) =
      some (.request (requestOf .stream none none) true) := by
  have hsnapshot : ¬(strstr (cstr (requestLine ++ [13, newline]))
      (literal "GET /?action=snapshot")).isSome = true := by decide +kernel
  have hstream : (strstr (cstr (requestLine ++ [13, newline]))
      (literal "GET /?action=stream")).isSome = true := by decide +kernel
  unfold determine
  rw [if_neg hsnapshot, if_pos hstream]
  rfl

/-- Without a number it is input 0 that is asked for. -/
theorem inputNumber_requestLine : inputNumber (cstr (requestLine ++ [13, newline])) = 0 := by
  decide +kernel

/-- The credentials that header lines present. -/
def credentialsIn (hs : List (List UInt8)) : Option (List UInt8) :=
  ((hs.map (· ++ [13, newline])).filterMap authorization).getLast?

/-- The lines of a request for the stream are read as they were sent. -/
theorem sentLines_streamRequest {socket : List Poll} {hs : List (List UInt8)}
    (hhs : ∀ line ∈ hs, HeaderLine line) (h : streamRequest hs <+: arriving socket) :
    ∃ rest, sentLines socket = (requestLine ++ [13, newline]) ::
      (hs.map (· ++ [13, newline]) ++ [13, newline] :: rest) := by
  obtain ⟨more, hmore⟩ := h
  have hall : ∀ line ∈ requestLine :: (hs ++ [[]]), newline ∉ line ∧
      line.length + 2 < BUFFER_SIZE := by
    rw [List.forall_mem_cons, List.forall_mem_append, List.forall_mem_singleton]
    exact ⟨by decide +kernel, fun line hline => ⟨(hhs line hline).whole, (hhs line hline).length⟩,
      by decide⟩
  refine ⟨lines (BUFFER_SIZE - 1) more, ?_⟩
  rw [sentLines, ← hmore, streamRequest, lines_crlf hall, List.map_cons, List.map_append,
    List.cons_append, List.append_assoc]
  rfl

/-- What a request for the stream is answered. -/
theorem clientThread_streamRequest (pc : Context) {socket : List Poll} {hs : List (List UInt8)}
    (hhs : ∀ line ∈ hs, HeaderLine line) (h : streamRequest hs <+: arriving socket) :
    ∃ req : Request, req.type = .stream ∧ req.credentials = credentialsIn hs ∧
      clientThread pc socket = answer pc req true 0 := by
  obtain ⟨rest, hlines⟩ := sentLines_streamRequest hhs h
  have hnone : authorization [13, newline] = none := by decide
  refine ⟨(hs.map (· ++ [13, newline]) ++ [[13, newline]]).foldl heard
    (requestOf .stream none none), (foldl_heard_rest _ _).1, ?_, ?_⟩
  · rw [foldl_heard_credentials, List.filterMap_append, List.filterMap_cons_none hnone,
      List.filterMap_nil, List.append_nil]
    exact Option.or_none
  · rw [clientThread_eq, hlines]
    unfold converse headers
    simp only [determine_requestLine, headerLines_end hhs, inputNumber_requestLine,
      Option.bind_eq_bind, Option.bind_some, Option.map_some, if_true]

/-- The stream is sent if the credentials are right and there is a camera. -/
theorem answer_stream {pc : Context} {req : Request} (htype : req.type = .stream)
    (hcred : pc.conf.credentials = none ∨ req.credentials = pc.conf.credentials)
    (hcamera : 0 < pc.pglobal.inputs.length) : answer pc req true 0 = some [.stream 0] := by
  have hnumbered : Numbered pc req true 0 := by
    refine ⟨fun _ _ => by omega, fun _ houtput => ?_⟩
    rw [htype] at houtput
    cases houtput
  rw [answer_admitted hcred hnumbered, dispatch, htype]

/-- **A viewer is sent the stream of the first camera exactly if it presents the credentials that
are configured**, if any are, and there is a camera: whatever its other header lines, and whatever
it sends behind the request. -/
theorem streamed_iff {pc : Context} {socket : List Poll} {hs : List (List UInt8)}
    (hhs : ∀ line ∈ hs, HeaderLine line) (h : streamRequest hs <+: arriving socket) :
    clientThread pc socket = some [.stream 0] ↔
      (pc.conf.credentials = none ∨ credentialsIn hs = pc.conf.credentials) ∧
        0 < pc.pglobal.inputs.length := by
  obtain ⟨req, htype, hcred, hanswer⟩ := clientThread_streamRequest pc hhs h
  rw [hanswer, ← hcred]
  constructor
  · intro hstream
    rcases answer_cases pc req true 0 with ⟨rs, hrs, herrors⟩ | ⟨hok, hnumbered⟩
    · obtain rfl := Option.some.inj (hrs.symm.trans hstream)
      obtain ⟨which, message, herror⟩ := herrors _ List.mem_cons_self
      cases herror
    · refine ⟨hok, ?_⟩
      have hlt := hnumbered.input rfl (by rw [htype]; decide)
      omega
  · rintro ⟨hok, hcamera⟩
    exact answer_stream htype hok hcamera

/-- With a header line, in two pieces, and with bytes behind the request. -/
theorem streamed_oneCamera :
    clientThread (oneCamera (some (literal "u:p")))
      [.data ((streamRequest [literal "Authorization: Basic dTpw"]).take 40) (by decide)
          (by decide),
        .data ((streamRequest [literal "Authorization: Basic dTpw"]).drop 40 ++ [71, 69])
          (by decide) (by decide)] = some [.stream 0] := by
  have hline : HeaderLine (literal "Authorization: Basic dTpw") :=
    ⟨by decide +kernel, by decide, by decide⟩
  have hcred : credentialsIn [literal "Authorization: Basic dTpw"] = some (literal "u:p") := by
    decide +kernel
  refine (streamed_iff (List.forall_mem_singleton.mpr hline) ⟨[71, 69], ?_⟩).mpr
    ⟨.inr hcred, by decide⟩
  rw [arriving, arriving, arriving, List.append_nil, ← List.append_assoc, List.take_append_drop]

/-! ## Basic credentials -/

/-- The header line of `Basic` credentials. -/
def authorizationLine (cred : List UInt8) : List UInt8 :=
  literal "Authorization: Basic " ++ Base64.encode cred

/-- What `strlen` of the prompt is in the code. -/
theorem length_authorizationPrompt : (literal "Authorization: Basic ").length = 21 := by decide

/-- A line of credentials is no `User-Agent` line. -/
theorem hyphen_notMem_authorizationLine (cred : List UInt8) :
    (45 : UInt8) ∉ authorizationLine cred ++ [13, newline] := by
  have hencode : ∀ c ∈ Base64.encode cred, c ≠ 45 :=
    Base64.forall_mem_encode (by decide +kernel) (by decide) cred
  have hprompt : (45 : UInt8) ∉ literal "Authorization: Basic " := by decide
  unfold authorizationLine
  simp only [List.mem_append, not_or]
  exact ⟨⟨hprompt, fun h => hencode 45 h rfl⟩, by decide⟩

/-- **The credentials in a header line are those that were encoded.** -/
theorem authorization_authorizationLine {cred : List UInt8} (hcred : ∀ c ∈ cred, c ≠ 0) :
    authorization (authorizationLine cred ++ [13, newline]) = some cred := by
  have hend : ∀ c ∈ [13, newline], c ≠ 0 := List.all_iff_forall_prop.mp (by decide)
  have htext : ∀ c ∈ Base64.encode cred ++ [13, newline], c ≠ 0 :=
    List.forall_mem_append.mpr ⟨Base64.encode_ne_zero cred, hend⟩
  have hprompt : ∀ c ∈ literal "Authorization: Basic ", c ≠ 0 :=
    List.all_iff_forall_prop.mp (by decide +kernel)
  have hline : cstr (authorizationLine cred ++ [13, newline]) =
      authorizationLine cred ++ [13, newline] := by
    refine cstr_eq_self ?_
    rw [authorizationLine, List.append_assoc]
    exact List.forall_mem_append.mpr ⟨hprompt, htext⟩
  have hagent : ¬literal "User-Agent: " <:+: authorizationLine cred ++ [13, newline] :=
    fun h => hyphen_notMem_authorizationLine cred (h.subset (by decide))
  have hbasic : literal "Authorization: Basic " <:+: authorizationLine cred ++ [13, newline] := by
    rw [authorizationLine, List.append_assoc]
    exact (List.prefix_append _ _).isInfix
  have hdrop : (authorizationLine cred ++ [13, newline]).drop 21 =
      Base64.encode cred ++ [13, newline] := by
    rw [authorizationLine, List.append_assoc]
    exact List.drop_left' length_authorizationPrompt
  unfold authorization
  rw [hline, if_neg hagent, if_pos hbasic, hdrop, cstr_eq_self htext, decoded,
    List.filterMap_append, show [13, newline].filterMap Base64.sextet = [] by decide,
    List.append_nil, Base64.octets_encode, cstr_append_replicate hcred]

/-- **A viewer that knows the credentials can log in**: the header line with their encoding, with
no other one for credentials behind it, gives it the stream. -/
theorem login {pc : Context} {socket : List Poll} {cred : List UInt8}
    {before after : List (List UInt8)} (hconf : pc.conf.credentials = some cred)
    (hcred : ∀ c ∈ cred, c ≠ 0) (hcamera : 0 < pc.pglobal.inputs.length)
    (hhs : ∀ line ∈ before ++ authorizationLine cred :: after, HeaderLine line)
    (hafter : ∀ line ∈ after, authorization (line ++ [13, newline]) = none)
    (h : streamRequest (before ++ authorizationLine cred :: after) <+: arriving socket) :
    clientThread pc socket = some [.stream 0] := by
  have hnone : (after.map (· ++ [13, newline])).filterMap authorization = [] := by
    rw [List.filterMap_map]
    exact List.filterMap_eq_nil_iff.mpr hafter
  have hpresented : credentialsIn (before ++ authorizationLine cred :: after) = some cred := by
    unfold credentialsIn
    rw [List.map_append, List.map_cons, List.filterMap_append,
      List.filterMap_cons_some (authorization_authorizationLine hcred), hnone,
      List.getLast?_append, List.getLast?_singleton, Option.some_or]
  obtain ⟨req, htype, hreq, hanswer⟩ := clientThread_streamRequest pc hhs h
  have hok : req.credentials = pc.conf.credentials := by rw [hreq, hpresented, hconf]
  rw [hanswer]
  exact answer_stream htype (.inr hok) hcamera

/-- The credentials `u:p`. -/
theorem login_oneCamera :
    clientThread (oneCamera (some (literal "u:p")))
      [.data (streamRequest ([] ++ authorizationLine (literal "u:p") :: [])) (by decide)
        (by decide)] = some [.stream 0] := by
  have hline : HeaderLine (authorizationLine (literal "u:p")) :=
    ⟨by decide +kernel, by decide, by decide⟩
  have hcred : ∀ c ∈ literal "u:p", c ≠ 0 := List.all_iff_forall_prop.mp (by decide)
  exact login rfl hcred (by decide) (List.forall_mem_singleton.mpr hline)
    (fun _ h => absurd h List.not_mem_nil) ⟨[], rfl⟩

end Httpd

end ProjZ
