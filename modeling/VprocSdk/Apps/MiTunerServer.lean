import VprocSdk.Converter.Text
import VprocSdk.Hbi.Types

/-!
# The receive loop of the MiTuner server

The server decodes what it receives as ASCII, collects it in `message` and takes a header from it and then the
command the header announces. It does each of the two at most once for every piece it receives. A piece that
brings the ends of two requests leaves the second to the next piece; if none comes, it stays. A piece with a
byte that is not ASCII ends the server.

`Waiting` is what holds between two pieces. `backlog` counts along the pieces which requests are left, and
`backlog_nil_iff` says when none is.
-/

namespace VprocSdk

open Lib

/-- `HEADER_SZ`. -/
def headerSz : Nat := 6

inductive WaitType
  | header
  | cmd
  deriving DecidableEq, Repr

/-- The variables of the loop, what `ParseCmd` depends on, and the answers sent so far. -/
structure ServerState (σ : Type) where
  message : List Char
  waitType : WaitType
  header : List Char
  cmdLen : Int
  device : σ
  answers : List (List Char)

def ServerState.start {σ : Type} (device : σ) : ServerState σ :=
  { message := [], waitType := .header, header := [], cmdLen := 0, device, answers := [] }

/-- `ParseCmd`: what it does to the device and what it answers, in ASCII, or the exception that ends the
server. -/
abbrev ParseCmd (σ : Type) : Type := σ → List Char → List Char → Except PyError (σ × List Char)

section Loop

variable {σ : Type}

/-- `message += buff`. -/
def ServerState.collect (st : ServerState σ) (buff : List Char) : ServerState σ :=
  { st with message := st.message ++ buff }

def receiveHeader (st : ServerState σ) : Except PyError (ServerState σ) :=
  if st.waitType = .header ∧ st.message.length ≥ headerSz then do
    let header := st.message.take headerSz
    let cmdLen ← unicodeIntHex ((header.drop 2).take 4)
    return { st with message := st.message.drop headerSz, waitType := .cmd, header, cmdLen }
  else return st

def receiveCmd (parseCmd : ParseCmd σ) (st : ServerState σ) : Except PyError (ServerState σ) :=
  if st.waitType = .cmd ∧ st.message.length ≥ st.cmdLen then do
    let (device, answer) ← parseCmd st.device st.header (pySlice st.message 0 st.cmdLen)
    return { st with
      message := pySlice st.message st.cmdLen st.message.length
      waitType := .header
      device
      answers := st.answers ++ [answer] }
  else return st

def receive (parseCmd : ParseCmd σ) (buff : List Char) (st : ServerState σ) :
    Except PyError (ServerState σ) := do
  let st ← receiveHeader (st.collect buff)
  receiveCmd parseCmd st

/-- The loop over what `recv` returns. An empty string means that the client is gone. -/
def serve (parseCmd : ParseCmd σ) : List (List Byte) → ServerState σ → Except PyError (ServerState σ)
  | [], st => .ok st
  | piece :: pieces, st => do
      let buff ← pyDecode piece
      if buff = [] then return st
      else
        let st ← receive parseCmd buff st
        serve parseCmd pieces st

end Loop

/-! ### Requests -/

/-- Two letters, four hexadecimal digits, and as many characters as they say, each of a byte. -/
structure MiTunerRequest where
  code : List Char
  digits : List Char
  body : List Char
  code_length : code.length = 2
  code_letters : ∀ c ∈ code, c.isAlpha
  digits_length : digits.length = 4
  digits_hex : ∀ c ∈ digits, isHex c = true
  body_length : (body.length : Int) = hexValue digits
  body_bytes : ∀ c ∈ body, c.toNat < 0x100

namespace MiTunerRequest

def header (r : MiTunerRequest) : List Char := r.code ++ r.digits

def text (r : MiTunerRequest) : List Char := r.header ++ r.body

def wire (r : MiTunerRequest) : List Byte := r.text.map charByte

def IsAscii (r : MiTunerRequest) : Prop := ∀ c ∈ r.body, c.toNat < 0x80

theorem header_length (r : MiTunerRequest) : r.header.length = headerSz := by
  rw [header, List.length_append, r.code_length, r.digits_length]
  rfl

theorem text_length (r : MiTunerRequest) : r.text.length = headerSz + r.body.length := by
  rw [text, List.length_append, header_length]

end MiTunerRequest

/-- What `ParseCmd` answers to requests, one after another. -/
def answersOf {σ : Type} (parseCmd : ParseCmd σ) :
    σ → List MiTunerRequest → Except PyError (σ × List (List Char))
  | device, [] => .ok (device, [])
  | device, r :: requests => do
      let (device, answer) ← parseCmd device r.header r.body
      let (device, answers) ← answersOf parseCmd device requests
      return (device, answer :: answers)

/-- How many of the requests are complete in the first `n` characters. -/
def completed : List MiTunerRequest → Nat → Nat
  | [], _ => 0
  | r :: requests, n => if r.text.length ≤ n then completed requests (n - r.text.length) + 1 else 0

/-- The requests left once the pieces are received, where `n` characters of the first are there already:
at most one is answered for each piece. -/
def backlog : List MiTunerRequest → Nat → List (List Byte) → List MiTunerRequest
  | requests, _, [] => requests
  | [], _, _ :: _ => []
  | r :: requests, n, piece :: pieces =>
      if r.text.length ≤ n + piece.length then backlog requests (n + piece.length - r.text.length) pieces
      else backlog (r :: requests) (n + piece.length) pieces

theorem completed_zero (requests : List MiTunerRequest) : completed requests 0 = 0 := by
  cases requests with
  | nil => rfl
  | cons r requests =>
      have hlen := r.text_length
      rw [completed, if_neg (by simp only [headerSz] at hlen; omega)]

/-- No request is left when, before the first piece and after each, no more are still incomplete than
pieces are still to come. -/
theorem backlog_nil_iff_from (requests : List MiTunerRequest) (n : Nat) (pieces : List (List Byte)) :
    backlog requests n pieces = [] ↔ requests.length ≤ pieces.length ∧
      ∀ k, k < pieces.length → requests.length ≤
        completed requests (n + (pieces.take (k + 1)).flatten.length) + (pieces.length - (k + 1)) := by
  induction pieces generalizing requests n with
  | nil =>
      rw [backlog]
      simp
  | cons buff pieces ih =>
      cases requests with
      | nil =>
          rw [backlog]
          simp
      | cons r requests =>
          rw [backlog]
          by_cases hdone : r.text.length ≤ n + buff.length
          · rw [if_pos hdone, ih, List.length_cons, List.length_cons]
            have hcompleted : ∀ more, completed (r :: requests) (n + (buff.length + more))
                = completed requests (n + buff.length - r.text.length + more) + 1 := by
              intro more
              rw [completed, if_pos (by omega)]
              congr 2
              omega
            constructor
            · intro hboth
              obtain ⟨hlen, hall⟩ := hboth
              refine ⟨by omega, ?_⟩
              intro k hk
              rw [List.take_succ_cons, List.flatten_cons, List.length_append, hcompleted]
              cases k with
              | zero => omega
              | succ k =>
                  have hnext := hall k (by omega)
                  omega
            · intro hboth
              obtain ⟨hlen, hall⟩ := hboth
              refine ⟨by omega, ?_⟩
              intro k hk
              have hnext := hall (k + 1) (by omega)
              rw [List.take_succ_cons, List.flatten_cons, List.length_append, hcompleted] at hnext
              omega
          · rw [if_neg hdone, ih, List.length_cons, List.length_cons]
            constructor
            · intro hboth
              obtain ⟨hlen, hall⟩ := hboth
              refine ⟨by omega, ?_⟩
              intro k hk
              rw [List.take_succ_cons, List.flatten_cons, List.length_append, ← Nat.add_assoc]
              cases k with
              | zero => omega
              | succ k =>
                  have hnext := hall k (by omega)
                  omega
            · intro hboth
              obtain ⟨hlen, hall⟩ := hboth
              have hfirst := hall 0 (by omega)
              rw [List.take_succ_cons, List.take_zero, List.flatten_cons, List.flatten_nil,
                List.append_nil, completed, if_neg hdone] at hfirst
              refine ⟨by omega, ?_⟩
              intro k hk
              have hnext := hall (k + 1) (by omega)
              rw [List.take_succ_cons, List.flatten_cons, List.length_append, ← Nat.add_assoc] at hnext
              omega

theorem backlog_nil_iff (requests : List MiTunerRequest) (pieces : List (List Byte)) :
    backlog requests 0 pieces = [] ↔ ∀ k ≤ pieces.length, requests.length ≤
      completed requests (pieces.take k).flatten.length + (pieces.length - k) := by
  rw [backlog_nil_iff_from]
  constructor
  · intro hboth k hk
    obtain ⟨hlen, hall⟩ := hboth
    cases k with
    | zero =>
        rw [List.take_zero, List.flatten_nil, List.length_nil, completed_zero]
        omega
    | succ k =>
        have hnext := hall k (by omega)
        rw [Nat.zero_add] at hnext
        exact hnext
  · intro hall
    have hfirst := hall 0 (Nat.zero_le _)
    rw [List.take_zero, List.flatten_nil, List.length_nil, completed_zero] at hfirst
    refine ⟨by omega, ?_⟩
    intro k hk
    rw [Nat.zero_add]
    exact hall (k + 1) hk

theorem backlog_length_le (requests : List MiTunerRequest) (n : Nat) (pieces : List (List Byte)) :
    (backlog requests n pieces).length ≤ requests.length := by
  induction pieces generalizing requests n with
  | nil => rw [backlog]
  | cons buff pieces ih =>
      cases requests with
      | nil => exact Nat.le_refl 0
      | cons r requests =>
          rw [backlog]
          split
          · have hrest := ih requests (n + buff.length - r.text.length)
            rw [List.length_cons]
            omega
          · exact ih (r :: requests) (n + buff.length)

/-! ### The header -/

theorem MiTunerRequest.text_ascii (r : MiTunerRequest) (h : r.IsAscii) : ∀ c ∈ r.text, c.toNat < 0x80 := by
  intro c hc
  rcases List.mem_append.1 hc with hheader | hbody
  · rcases List.mem_append.1 hheader with hcode | hdigit
    · exact toNat_of_isAlpha (r.code_letters c hcode)
    · exact toNat_of_isHex (r.digits_hex c hdigit)
  · exact h c hbody

theorem MiTunerRequest.intHex_header (r : MiTunerRequest) :
    unicodeIntHex ((r.header.drop 2).take 4) = .ok r.body.length := by
  have hdigits : (r.header.drop 2).take 4 = r.digits := by
    rw [header, ← r.code_length, List.drop_left, ← r.digits_length, List.take_length]
  have hne : r.digits ≠ [] := by
    intro hnil
    have hlen := r.digits_length
    rw [hnil] at hlen
    cases hlen
  rw [hdigits, unicodeIntHex, map_unicodeSpace r.digits_hex, intHex_digits hne r.digits_hex, r.body_length]

/-! ### The turns of the loop -/

section Turns

variable {σ : Type} {parseCmd : ParseCmd σ} {st : ServerState σ} {todo : List MiTunerRequest}
  {future buff : List Char}

/-- What is received of the requests that are not answered. -/
def ServerState.unread (st : ServerState σ) : List Char :=
  if st.waitType = .cmd then st.header ++ st.message else st.message

/-- Between two pieces: the requests not answered are what is unread and what is still to come, and a
header is taken when it is there. -/
structure Waiting (todo : List MiTunerRequest) (future : List Char) (st : ServerState σ) : Prop where
  text : st.unread ++ future = todo.flatMap MiTunerRequest.text
  cmd : st.waitType = .cmd → ∃ r rest, todo = r :: rest ∧ st.header = r.header ∧
    st.cmdLen = r.body.length ∧ st.message.length < r.body.length

theorem waiting_start (device : σ) (todo : List MiTunerRequest) :
    Waiting todo (todo.flatMap MiTunerRequest.text) (ServerState.start device) :=
  ⟨rfl, fun h => by cases h⟩

theorem append_cut {xs ys zs ws : List Char} (h : xs ++ ys = zs ++ ws) (hle : zs.length ≤ xs.length) :
    ∃ more, xs = zs ++ more ∧ more ++ ys = ws := by
  rcases List.append_eq_append_iff.1 h with ⟨more, hzs, hys⟩ | ⟨more, hxs, hws⟩
  · have hnil : more = [] := by
      apply List.eq_nil_of_length_eq_zero
      have hlen := congrArg List.length hzs
      rw [List.length_append] at hlen
      omega
    subst hnil
    exact ⟨[], by simpa using hzs.symm, by simpa using hys⟩
  · exact ⟨more, hxs, hws.symm⟩

theorem waitType_cases (st : ServerState σ) : st.waitType = .header ∨ st.waitType = .cmd := by
  cases st.waitType with
  | header => exact .inl rfl
  | cmd => exact .inr rfl

theorem receiveHeader_header (r : MiTunerRequest) {more : List Char} (hwait : st.waitType = .header)
    (hmessage : st.message = r.header ++ more) : receiveHeader st
      = .ok { st with message := more, waitType := .cmd, header := r.header, cmdLen := r.body.length } := by
  have hlen := r.header_length
  have hready : st.waitType = .header ∧ st.message.length ≥ headerSz := by
    refine ⟨hwait, ?_⟩
    rw [hmessage, List.length_append]
    omega
  have htake : st.message.take headerSz = r.header := by
    rw [hmessage, ← hlen, List.take_left]
  have hdrop : st.message.drop headerSz = more := by
    rw [hmessage, ← hlen, List.drop_left]
  rw [receiveHeader, if_pos hready, htake, hdrop]
  dsimp only
  rw [r.intHex_header]
  rfl

theorem receiveCmd_body (r : MiTunerRequest) {more : List Char} (hwait : st.waitType = .cmd)
    (hheader : st.header = r.header) (hcmd : st.cmdLen = r.body.length)
    (hmessage : st.message = r.body ++ more) : receiveCmd parseCmd st = do
      let (device, answer) ← parseCmd st.device r.header r.body
      return { st with
        message := more, waitType := .header, device, answers := st.answers ++ [answer] } := by
  have hready : st.waitType = .cmd ∧ st.message.length ≥ st.cmdLen := by
    refine ⟨hwait, ?_⟩
    rw [hcmd, hmessage, List.length_append]
    omega
  have hbody : pySlice st.message 0 st.cmdLen = r.body := by
    rw [hcmd, pySlice_prefix, hmessage, List.take_left]
  have hmore : pySlice st.message st.cmdLen st.message.length = more := by
    rw [hcmd, pySlice_suffix, hmessage, List.drop_left]
  rw [receiveCmd, if_pos hready, hbody, hmore, hheader]

theorem receiveHeader_wait (h : ¬ (st.waitType = .header ∧ st.message.length ≥ headerSz)) :
    receiveHeader st = .ok st := if_neg h

theorem receiveHeader_keeps {st' : ServerState σ} (h : receiveHeader st = .ok st') :
    st'.device = st.device ∧ st'.answers = st.answers := by
  unfold receiveHeader at h
  by_cases hready : st.waitType = .header ∧ st.message.length ≥ headerSz
  · rw [if_pos hready] at h
    obtain ⟨cmdLen, -, hst⟩ := except_bind_ok h
    cases hst
    exact ⟨rfl, rfl⟩
  · rw [if_neg hready] at h
    cases h
    exact ⟨rfl, rfl⟩

theorem receiveCmd_wait (h : ¬ (st.waitType = .cmd ∧ st.message.length ≥ st.cmdLen)) :
    receiveCmd parseCmd st = .ok st := if_neg h

theorem collect_unread (st : ServerState σ) (buff : List Char) :
    (st.collect buff).unread = st.unread ++ buff := by
  rcases waitType_cases st with hwait | hwait
  · have hcollect : (st.collect buff).waitType = .header := hwait
    rw [ServerState.unread, ServerState.unread, hwait, hcollect, if_neg (by decide), if_neg (by decide)]
    rfl
  · have hcollect : (st.collect buff).waitType = .cmd := hwait
    rw [ServerState.unread, ServerState.unread, hwait, hcollect, if_pos rfl, if_pos rfl,
      List.append_assoc]
    rfl

theorem receive_wait (h : Waiting todo (buff ++ future) st)
    (hheader : st.waitType = .header → (st.collect buff).message.length < headerSz)
    (hcmd : st.waitType = .cmd → ((st.collect buff).message.length : Int) < st.cmdLen) :
    receive parseCmd buff st = .ok (st.collect buff) ∧ Waiting todo future (st.collect buff) := by
  have hnoHeader : ¬ ((st.collect buff).waitType = .header ∧
      (st.collect buff).message.length ≥ headerSz) := by
    intro hboth
    obtain ⟨hwait, hready⟩ := hboth
    exact absurd hready (Nat.not_le_of_lt (hheader hwait))
  have hnoCmd : ¬ ((st.collect buff).waitType = .cmd ∧
      ((st.collect buff).message.length : Int) ≥ (st.collect buff).cmdLen) := by
    intro hboth
    obtain ⟨hwait, hready⟩ := hboth
    exact absurd hready (Int.not_le_of_gt (hcmd hwait))
  constructor
  · rw [receive, receiveHeader_wait hnoHeader]
    exact receiveCmd_wait hnoCmd
  · constructor
    · rw [collect_unread, List.append_assoc]
      exact h.text
    · intro hwait
      obtain ⟨r, rest, htodo, hr, hlen, -⟩ := h.cmd hwait
      have hshort := hcmd hwait
      rw [hlen] at hshort
      exact ⟨r, rest, htodo, hr, hlen, Int.ofNat_lt.1 hshort⟩

/-- A piece that completes the next request: it is answered, and nothing else is looked at. -/
theorem receive_complete {r : MiTunerRequest} {device : σ} {answer : List Char}
    (h : Waiting (r :: todo) (buff ++ future) st) (hlen : r.text.length ≤ st.unread.length + buff.length)
    (hanswer : parseCmd st.device r.header r.body = .ok (device, answer)) :
    ∃ st', receive parseCmd buff st = .ok st' ∧ Waiting todo future st' ∧
      st'.unread.length + r.text.length = st.unread.length + buff.length ∧ st'.device = device ∧
      st'.answers = st.answers ++ [answer] := by
  have htext := h.text
  rw [← List.append_assoc, List.flatMap_cons] at htext
  obtain ⟨more, hunread, hmore⟩ := append_cut htext (by rw [List.length_append]; exact hlen)
  have hcount := congrArg List.length hunread
  rw [List.length_append, List.length_append] at hcount
  have hreceive : receive parseCmd buff st = .ok { st with
      message := more, waitType := .header, header := r.header, cmdLen := r.body.length, device,
      answers := st.answers ++ [answer] } := by
    unfold receive
    rcases waitType_cases st with hwait | hwait
    · have hmessage : (st.collect buff).message = r.header ++ (r.body ++ more) := by
        rw [ServerState.unread, hwait, if_neg (by decide)] at hunread
        exact hunread.trans (List.append_assoc _ _ _)
      have hcollect : (st.collect buff).waitType = .header := hwait
      rw [receiveHeader_header r hcollect hmessage]
      show receiveCmd parseCmd _ = _
      rw [receiveCmd_body r rfl rfl rfl rfl]
      dsimp only [ServerState.collect]
      rw [hanswer]
      rfl
    · obtain ⟨r', rest, hnext, hheader, hcmd, -⟩ := h.cmd hwait
      cases hnext
      have hmessage : (st.collect buff).message = r.body ++ more := by
        rw [ServerState.unread, hwait, if_pos rfl, hheader, MiTunerRequest.text, List.append_assoc,
          List.append_assoc] at hunread
        exact List.append_cancel_left hunread
      have hskip : ¬ ((st.collect buff).waitType = .header ∧
          (st.collect buff).message.length ≥ headerSz) := by
        intro hboth
        obtain ⟨hheader, -⟩ := hboth
        exact absurd (hwait.symm.trans hheader) (by decide)
      have hcollect : (st.collect buff).waitType = .cmd := hwait
      rw [receiveHeader_wait hskip]
      show receiveCmd parseCmd _ = _
      rw [receiveCmd_body r hcollect hheader hcmd hmessage]
      dsimp only [ServerState.collect]
      rw [hanswer, hheader, hcmd]
      rfl
  refine ⟨_, hreceive, ⟨hmore, fun hcmd => by cases hcmd⟩, ?_, rfl, rfl⟩
  show more.length + r.text.length = st.unread.length + buff.length
  omega

/-- A piece that leaves the next request incomplete: at most its header is taken. -/
theorem receive_incomplete (h : Waiting todo (buff ++ future) st)
    (hlen : ∀ r ∈ todo.head?, st.unread.length + buff.length < r.text.length) :
    ∃ st', receive parseCmd buff st = .ok st' ∧ Waiting todo future st' ∧
      st'.unread.length = st.unread.length + buff.length ∧ st'.device = st.device ∧
      st'.answers = st.answers := by
  have hcollected : (st.collect buff).unread.length = st.unread.length + buff.length := by
    rw [collect_unread, List.length_append]
  have htext : (st.collect buff).unread ++ future = todo.flatMap MiTunerRequest.text := by
    rw [collect_unread, List.append_assoc]
    exact h.text
  rw [← hcollected] at hlen ⊢
  rcases waitType_cases st with hwait | hwait
  · have hcollect : (st.collect buff).waitType = .header := hwait
    have hunread : (st.collect buff).unread = (st.collect buff).message := by
      rw [ServerState.unread, hcollect, if_neg (by decide)]
    by_cases hready : headerSz ≤ (st.collect buff).message.length
    · rw [hunread] at htext hlen ⊢
      cases todo with
      | nil =>
          have hnil := congrArg List.length htext
          simp only [headerSz] at hready
          simp only [List.length_append, List.flatMap_nil, List.length_nil] at hnil
          omega
      | cons r rest =>
          have hshort := hlen r rfl
          rw [List.flatMap_cons, MiTunerRequest.text, List.append_assoc] at htext
          obtain ⟨more, hmessage, hmore⟩ := append_cut htext (by rw [r.header_length]; exact hready)
          have hcount : (st.collect buff).message.length = headerSz + more.length := by
            rw [hmessage, List.length_append, r.header_length]
          rw [r.text_length] at hshort
          rw [receive, receiveHeader_header r hcollect hmessage]
          refine ⟨_, receiveCmd_wait ?_, ⟨?_, ?_⟩, ?_, rfl, rfl⟩
          · intro hboth
            obtain ⟨-, hbody⟩ := hboth
            have hlong : (more.length : Int) ≥ r.body.length := hbody
            omega
          · show (r.header ++ more) ++ future = _
            rw [List.append_assoc, hmore, List.flatMap_cons, MiTunerRequest.text, List.append_assoc]
          · intro _
            refine ⟨r, rest, rfl, rfl, rfl, ?_⟩
            show more.length < r.body.length
            omega
          · show (r.header ++ more).length = _
            rw [hmessage]
    · obtain ⟨hreceive, hwaiting⟩ := @receive_wait σ parseCmd st todo future buff h
        (fun _ => Nat.lt_of_not_le hready) (fun hcmd => absurd (hwait.symm.trans hcmd) (by decide))
      exact ⟨_, hreceive, hwaiting, rfl, rfl, rfl⟩
  · have hcollect : (st.collect buff).waitType = .cmd := hwait
    obtain ⟨r, rest, rfl, hheader, hcmd, -⟩ := h.cmd hwait
    have hshort := hlen r rfl
    have hheader' : (st.collect buff).header = r.header := hheader
    have hbody : (st.collect buff).message.length < r.body.length := by
      rw [ServerState.unread, hcollect, if_pos rfl, r.text_length, List.length_append, hheader',
        r.header_length] at hshort
      omega
    obtain ⟨hreceive, hwaiting⟩ := @receive_wait σ parseCmd st (r :: rest) future buff h
      (fun hno => absurd (hwait.symm.trans hno) (by decide))
      (fun _ => by rw [hcmd]; exact Int.ofNat_lt.2 hbody)
    exact ⟨_, hreceive, hwaiting, rfl, rfl, rfl⟩

theorem serve_cons {piece : List Byte} {pieces : List (List Byte)} {st' : ServerState σ}
    (hdecode : pyDecode piece = .ok buff) (hne : buff ≠ []) (h : receive parseCmd buff st = .ok st') :
    serve parseCmd (piece :: pieces) st = serve parseCmd pieces st' := by
  rw [serve, hdecode]
  show (if buff = [] then _ else _) = _
  rw [if_neg hne, h]
  rfl

theorem serve_ascii {pieces : List (List Byte)} {st' : ServerState σ} (hpieces : ∀ piece ∈ pieces, piece ≠ [])
    (h : serve parseCmd pieces st = .ok st') : ∀ piece ∈ pieces, ∀ b ∈ piece, b.toNat < 0x80 := by
  induction pieces generalizing st with
  | nil => simp
  | cons piece pieces ih =>
      rw [serve] at h
      obtain ⟨buff, hdecode, hserve⟩ := except_bind_ok h
      obtain ⟨hascii, rfl⟩ := pyDecode_ok hdecode
      have hne : asciiText piece ≠ [] := fun hnil => hpieces piece List.mem_cons_self (List.map_eq_nil_iff.1 hnil)
      rw [if_neg hne] at hserve
      obtain ⟨next, -, hrest⟩ := except_bind_ok hserve
      rw [List.forall_mem_cons]
      exact ⟨hascii, ih (fun p hp => hpieces p (List.mem_cons_of_mem piece hp)) hrest⟩

theorem answersOf_cons {r : MiTunerRequest} {start device : σ} {answers : List (List Char)}
    (h : answersOf parseCmd start (r :: todo) = .ok (device, answers)) :
    ∃ device' answer rest, parseCmd start r.header r.body = .ok (device', answer) ∧
      answersOf parseCmd device' todo = .ok (device, rest) ∧ answers = answer :: rest := by
  rw [answersOf] at h
  cases hanswer : parseCmd start r.header r.body with
  | error e =>
      rw [hanswer] at h
      cases h
  | ok first =>
      obtain ⟨device', answer⟩ := first
      rw [hanswer] at h
      change (answersOf parseCmd device' todo).bind _ = _ at h
      cases hrest : answersOf parseCmd device' todo with
      | error e =>
          rw [hrest] at h
          cases h
      | ok last =>
          rw [hrest] at h
          cases h
          exact ⟨device', answer, last.2, rfl, hrest, rfl⟩

/-- The loop over pieces: what is left is the backlog, and the others are answered in order. -/
theorem serve_run {pieces : List (List Byte)} (hpieces : ∀ piece ∈ pieces, piece ≠ [])
    (hascii : ∀ piece ∈ pieces, ∀ b ∈ piece, b.toNat < 0x80)
    (h : Waiting todo (asciiText pieces.flatten) st) {device : σ} {answers : List (List Char)}
    (hanswers : answersOf parseCmd st.device todo = .ok (device, answers)) :
    ∃ st', serve parseCmd pieces st = .ok st' ∧ Waiting (backlog todo st.unread.length pieces) [] st' ∧
      st'.answers = st.answers ++
        answers.take (todo.length - (backlog todo st.unread.length pieces).length) := by
  induction pieces generalizing st todo answers with
  | nil =>
      refine ⟨st, rfl, h, ?_⟩
      rw [backlog, Nat.sub_self, List.take_zero, List.append_nil]
  | cons piece pieces ih =>
      have hdecode := pyDecode_ascii (hascii piece List.mem_cons_self)
      have hlen' : (asciiText piece).length = piece.length := List.length_map _
      have hne : asciiText piece ≠ [] := fun hnil =>
        hpieces piece List.mem_cons_self (List.map_eq_nil_iff.1 hnil)
      have hothers := fun p hp => hpieces p (List.mem_cons_of_mem piece hp)
      have hascii' := fun p hp => hascii p (List.mem_cons_of_mem piece hp)
      rw [List.flatten_cons, asciiText, List.map_append, ← asciiText, ← asciiText] at h
      cases todo with
      | nil =>
          have hnil := List.append_eq_nil_iff.1 h.text
          exact absurd (List.append_eq_nil_iff.1 hnil.2).1 hne
      | cons r rest =>
          rw [backlog]
          by_cases hdone : r.text.length ≤ st.unread.length + piece.length
          · obtain ⟨device', answer, more, hanswer, hmore, rfl⟩ := answersOf_cons hanswers
            obtain ⟨st', hrun, hwaiting, hlen, rfl, hsent⟩ := receive_complete h (by rw [hlen']; exact hdone) hanswer
            obtain ⟨last, hserve, hlast, houts⟩ := ih hothers hascii' hwaiting hmore
            have hunread : st.unread.length + piece.length - r.text.length = st'.unread.length := by omega
            have hle := backlog_length_le rest st'.unread.length pieces
            have hcount : (r :: rest).length - (backlog rest st'.unread.length pieces).length
                = rest.length - (backlog rest st'.unread.length pieces).length + 1 := by
              rw [List.length_cons]
              omega
            rw [if_pos hdone, hunread, serve_cons hdecode hne hrun]
            refine ⟨last, hserve, hlast, ?_⟩
            rw [houts, hsent, hcount, List.take_succ_cons, List.append_assoc, List.singleton_append]
          · have hshort : ∀ r' ∈ (r :: rest).head?,
                st.unread.length + (asciiText piece).length < r'.text.length := by
              intro r' heq
              cases heq
              omega
            obtain ⟨st', hrun, hwaiting, hlen, hdevice, hsame⟩ :=
              @receive_incomplete σ parseCmd st (r :: rest) _ _ h hshort
            rw [hlen'] at hlen
            rw [← hdevice] at hanswers
            obtain ⟨last, hserve, hlast, houts⟩ := ih hothers hascii' hwaiting hanswers
            rw [if_neg hdone, ← hlen, serve_cons hdecode hne hrun]
            refine ⟨last, hserve, hlast, ?_⟩
            rw [houts, hsame]

theorem answersOf_length {start device : σ} {answers : List (List Char)}
    (h : answersOf parseCmd start todo = .ok (device, answers)) : answers.length = todo.length := by
  induction todo generalizing start answers with
  | nil =>
      cases h
      rfl
  | cons r rest ih =>
      obtain ⟨device', answer, more, -, hmore, rfl⟩ := answersOf_cons h
      rw [List.length_cons, List.length_cons, ih hmore]

end Turns

/-- The server has answered all requests and nothing is left: no characters and no header. -/
def AnswersAll {σ : Type} (parseCmd : ParseCmd σ) (device : σ) (pieces : List (List Byte))
    (answers : List (List Char)) : Prop :=
  ∃ st, serve parseCmd pieces (.start device) = .ok st ∧ st.answers = answers ∧ st.message = [] ∧
    st.waitType = .header

theorem asciiText_wire {requests : List MiTunerRequest} (h : ∀ r ∈ requests, r.IsAscii) :
    (∀ b ∈ requests.flatMap MiTunerRequest.wire, b.toNat < 0x80) ∧
      asciiText (requests.flatMap MiTunerRequest.wire) = requests.flatMap MiTunerRequest.text := by
  have hwire : requests.flatMap MiTunerRequest.wire = (requests.flatMap MiTunerRequest.text).map charByte := by
    rw [List.map_flatMap]
    rfl
  have hchars : ∀ c ∈ requests.flatMap MiTunerRequest.text, c.toNat < 0x80 := by
    intro c hc
    obtain ⟨r, hr, hmem⟩ := List.mem_flatMap.1 hc
    exact r.text_ascii (h r hr) c hmem
  refine ⟨?_, by rw [hwire, asciiText_charByte hchars]⟩
  intro b hb
  rw [hwire] at hb
  obtain ⟨c, hc, rfl⟩ := List.mem_map.1 hb
  have hsmall := hchars c hc
  rw [charByte, BitVec.toNat_ofNat]
  omega

theorem isAscii_of_wire {requests : List MiTunerRequest}
    (h : ∀ b ∈ requests.flatMap MiTunerRequest.wire, b.toNat < 0x80) : ∀ r ∈ requests, r.IsAscii := by
  intro r hr c hc
  have hbyte := r.body_bytes c hc
  have hsmall := h (charByte c) (List.mem_flatMap.2
    ⟨r, hr, List.mem_map.2 ⟨c, List.mem_append_right _ hc, rfl⟩⟩)
  rw [charByte, BitVec.toNat_ofNat, Nat.mod_eq_of_lt (by omega)] at hsmall
  exact hsmall

/-- The server answers all requests of a stream that is cut into pieces exactly when the stream is ASCII and,
before the first piece and after each, no more requests are still incomplete than pieces are still to come. -/
theorem answers_all_iff {σ : Type} (parseCmd : ParseCmd σ) (start device : σ)
    (requests : List MiTunerRequest) (pieces : List (List Byte)) (answers : List (List Char))
    (hpieces : ∀ piece ∈ pieces, piece ≠ [])
    (hstream : pieces.flatten = requests.flatMap MiTunerRequest.wire)
    (hanswers : answersOf parseCmd start requests = .ok (device, answers)) :
    AnswersAll parseCmd start pieces answers ↔ (∀ r ∈ requests, r.IsAscii) ∧ ∀ k ≤ pieces.length,
      requests.length ≤ completed requests (pieces.take k).flatten.length + (pieces.length - k) := by
  by_cases hrequests : ∀ r ∈ requests, r.IsAscii
  · obtain ⟨hwire, htext⟩ := asciiText_wire hrequests
    rw [← hstream] at hwire htext
    have hascii : ∀ piece ∈ pieces, ∀ b ∈ piece, b.toNat < 0x80 :=
      fun piece hpiece b hb => hwire b (List.mem_flatten.2 ⟨piece, hpiece, hb⟩)
    have hstart := waiting_start start requests
    rw [← htext] at hstart
    obtain ⟨st, hserve, hwaiting, houts⟩ := serve_run hpieces hascii hstart hanswers
    have hunread : (ServerState.start start).unread.length = 0 := rfl
    rw [hunread] at hwaiting houts
    have hlen := answersOf_length hanswers
    rw [and_iff_right hrequests, ← backlog_nil_iff]
    constructor
    · intro hexists
      obtain ⟨st', hserve', hall, -⟩ := hexists
      rw [hserve] at hserve'
      cases hserve'
      have hcount := congrArg List.length (houts.symm.trans hall)
      have hle := backlog_length_le requests 0 pieces
      have hnone : (ServerState.start start).answers.length = 0 := rfl
      rw [List.length_append, hnone, List.length_take, hlen] at hcount
      by_contra hleft
      have hpos := List.length_pos_iff.2 hleft
      omega
    · intro hnil
      rw [hnil] at hwaiting houts
      have hheader : st.waitType = .header := by
        apply (waitType_cases st).resolve_right
        intro hcmd
        obtain ⟨r, rest, hnext, -⟩ := hwaiting.cmd hcmd
        cases hnext
      have htext := hwaiting.text
      rw [ServerState.unread, hheader, if_neg (by decide), List.append_nil] at htext
      refine ⟨st, hserve, ?_, htext, hheader⟩
      rw [houts, List.length_nil, Nat.sub_zero, ← hlen, List.take_length]
      rfl
  · refine iff_of_false ?_ fun hboth => hrequests hboth.1
    intro hexists
    obtain ⟨st, hserve, -⟩ := hexists
    apply hrequests
    apply isAscii_of_wire
    intro b hb
    rw [← hstream] at hb
    obtain ⟨piece, hpiece, hmem⟩ := List.mem_flatten.1 hb
    exact serve_ascii hpieces hserve piece hpiece b hmem

/-- A request that `ParseCmd` does not know, and what it answers. -/
def unknownRequest : MiTunerRequest where
  code := "XX".toList
  digits := "0001".toList
  body := "?".toList
  code_length := rfl
  code_letters := List.all_eq_true.1 (by decide)
  digits_length := rfl
  digits_hex := List.all_eq_true.1 (by decide)
  body_length := by decide
  body_bytes := List.forall_mem_singleton.2 (by decide)

theorem unknownRequest_isAscii : unknownRequest.IsAscii := List.forall_mem_singleton.2 (by decide)

def answerUnknown : ParseCmd Unit := fun _ _ _ => .ok ((), "ANS0005ERROR".toList)

theorem answers_all_iff_split : AnswersAll answerUnknown ()
    ["XX00".toList.map charByte, "01?XX0001".toList.map charByte, "?".toList.map charByte]
    ["ANS0005ERROR".toList, "ANS0005ERROR".toList] :=
  (answers_all_iff answerUnknown () () [unknownRequest, unknownRequest] _ _ (by decide) (by decide) rfl).2
    ⟨List.forall_mem_cons.2 ⟨unknownRequest_isAscii, List.forall_mem_singleton.2 unknownRequest_isAscii⟩, by decide⟩

/-- Two requests in one piece: the second is not answered. -/
theorem joined_requests_wait :
    (∃ st, serve answerUnknown ["XX0001?XX0001?".toList.map charByte] (.start ()) = .ok st ∧
      st.answers = ["ANS0005ERROR".toList] ∧ st.message = "XX0001?".toList) ∧
    ¬ AnswersAll answerUnknown () ["XX0001?XX0001?".toList.map charByte]
      ["ANS0005ERROR".toList, "ANS0005ERROR".toList] := by
  refine ⟨⟨_, rfl, rfl, rfl⟩, ?_⟩
  intro hexists
  obtain ⟨st, hserve, hanswers, -⟩ := hexists
  cases hserve
  exact absurd hanswers (by decide)

end VprocSdk
