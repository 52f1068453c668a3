import VprocSdk.Apps.MiTunerCommands

/-!
# The requests of a stream

What the receive loop takes of a stream depends on the stream alone. So the server does what it does for the
requests one after another, and where a stream is made of whole requests, it takes all but the backlog.
-/

namespace VprocSdk

open Lib

/-- The receive loop with the requests that it takes written down. -/
def logged : ParseCmd (List (List Char × List Char)) := fun taken header cmd =>
  .ok (taken ++ [(header, cmd)], [])

/-- The requests that the loop takes of a stream, until an exception ends it. -/
def requestsOf : List (List Byte) → ServerState (List (List Char × List Char)) →
    List (List Char × List Char)
  | [], st => st.device
  | piece :: pieces, st =>
      match pyDecode piece with
      | .error _ => st.device
      | .ok buff =>
          if buff = [] then st.device
          else
            match receive logged buff st with
            | .ok st => requestsOf pieces st
            | .error _ => st.device

def ServerState.on {σ τ : Type} (st : ServerState σ) (device : τ) (answers : List (List Char)) :
    ServerState τ :=
  { message := st.message
    waitType := st.waitType
    header := st.header
    cmdLen := st.cmdLen
    device
    answers }

def serveCmds (fuel handle : Nat) : List (List Char × List Char) → MiTunerVars →
    PyScript (MiTunerVars × List (List Char))
  | [], vars => return (vars, [])
  | taken :: cmds, vars => do
      let served ← parseMiTunerCmd fuel handle vars taken.1 taken.2
      let rest ← serveCmds fuel handle cmds served.1
      return (rest.1, served.2 :: rest.2)

section Loop

variable {st st' : ServerState (List (List Char × List Char))} (fuel handle : Nat)

theorem receiveHeader_on {τ : Type} (device : τ) (answers : List (List Char)) :
    receiveHeader (st.on device answers) = (receiveHeader st).map fun st => st.on device answers := by
  unfold receiveHeader
  by_cases hready : st.waitType = .header ∧ st.message.length ≥ headerSz
  · rw [if_pos hready, if_pos (show (st.on device answers).waitType = .header ∧
      (st.on device answers).message.length ≥ headerSz from hready)]
    show (unicodeIntHex (((st.message.take headerSz).drop 2).take 4) >>= _)
      = Except.map _ (unicodeIntHex (((st.message.take headerSz).drop 2).take 4) >>= _)
    cases unicodeIntHex (((st.message.take headerSz).drop 2).take 4) with
    | error e => rfl
    | ok cmdLen => rfl
  · rw [if_neg hready, if_neg (show ¬ ((st.on device answers).waitType = .header ∧
      (st.on device answers).message.length ≥ headerSz) from hready)]
    rfl

theorem serveCmd_on (st : ServerState (List (List Char × List Char))) :
    ∃ st' more, receiveCmd logged st = .ok st' ∧ st'.device = st.device ++ more ∧ ∀ vars answers,
      serveCmd fuel handle (st.on vars answers) = serveCmds fuel handle more vars >>= fun served =>
        pure (st'.on served.1 (answers ++ served.2)) := by
  unfold receiveCmd
  by_cases hready : st.waitType = .cmd ∧ (st.message.length : Int) ≥ st.cmdLen
  · rw [if_pos hready]
    refine ⟨_, [(st.header, pySlice st.message 0 st.cmdLen)], rfl, rfl, ?_⟩
    intro vars answers
    rw [serveCmd, if_pos (show (st.on vars answers).waitType = .cmd ∧
      ((st.on vars answers).message.length : Int) ≥ (st.on vars answers).cmdLen from hready)]
    simp only [serveCmds, bind_assoc, pure_bind]
    rfl
  · rw [if_neg hready]
    refine ⟨st, [], rfl, (List.append_nil _).symm, ?_⟩
    intro vars answers
    rw [serveCmd, if_neg (show ¬ ((st.on vars answers).waitType = .cmd ∧
      ((st.on vars answers).message.length : Int) ≥ (st.on vars answers).cmdLen) from hready)]
    simp only [serveCmds, pure_bind, List.append_nil]

theorem serveCmds_append (cmds more : List (List Char × List Char)) (vars : MiTunerVars) :
    serveCmds fuel handle (cmds ++ more) vars = serveCmds fuel handle cmds vars >>= fun served =>
      serveCmds fuel handle more served.1 >>= fun rest => pure (rest.1, served.2 ++ rest.2) := by
  induction cmds generalizing vars with
  | nil =>
      simp only [List.nil_append, serveCmds, pure_bind]
      exact (bind_pure _).symm
  | cons taken cmds ih => simp only [List.cons_append, serveCmds, ih, bind_assoc, pure_bind]

theorem serveClient_on (pieces : List (List Byte)) (st : ServerState (List (List Char × List Char))) :
    ∃ more, requestsOf pieces st = st.device ++ more ∧ ∀ vars answers,
      serveClient fuel handle pieces (st.on vars answers) = serveCmds fuel handle more vars >>= fun served =>
        pyLift (serve logged pieces st) >>= fun st' => pure (st'.on served.1 (answers ++ served.2)) := by
  induction pieces generalizing st with
  | nil =>
      refine ⟨[], (List.append_nil _).symm, ?_⟩
      intro vars answers
      simp only [serveClient, serveCmds, serve, pyLift, pure_bind, List.append_nil]
  | cons piece pieces ih =>
      rw [requestsOf]
      cases hdecode : pyDecode piece with
      | error e =>
          refine ⟨[], (List.append_nil _).symm, ?_⟩
          intro vars answers
          rw [serveClient, serve, hdecode]
          rfl
      | ok buff =>
          dsimp only
          have hserve : serve logged (piece :: pieces) st = if buff = [] then .ok st else
              receive logged buff st >>= serve logged pieces := by
            rw [serve, hdecode]
            rfl
          have hclient : ∀ {vars : MiTunerVars} {answers}, serveClient fuel handle (piece :: pieces)
              (st.on vars answers) = if buff = [] then pure (st.on vars answers) else
                pyLift (receiveHeader ((st.on vars answers).collect buff)) >>= fun st =>
                  serveCmd fuel handle st >>= serveClient fuel handle pieces := by
            intro vars answers
            rw [serveClient, hdecode]
            rfl
          by_cases hgone : buff = []
          · rw [if_pos hgone] at hserve ⊢
            refine ⟨[], (List.append_nil _).symm, ?_⟩
            intro vars answers
            rw [hclient, if_pos hgone, hserve]
            simp only [serveCmds, pyLift, pure_bind, List.append_nil]
          · rw [if_neg hgone] at hserve ⊢
            have hon : ∀ {vars : MiTunerVars} {answers}, receiveHeader ((st.on vars answers).collect buff)
                = (receiveHeader (st.collect buff)).map fun st => st.on vars answers :=
              @receiveHeader_on (st.collect buff) _
            cases hheader : receiveHeader (st.collect buff) with
            | error e =>
                have hturn : receive logged buff st = .error e := by rw [receive, hheader]; rfl
                rw [hturn] at hserve ⊢
                refine ⟨[], (List.append_nil _).symm, ?_⟩
                intro vars answers
                rw [hclient, if_neg hgone, hon, hheader, hserve]
                rfl
            | ok headed =>
                obtain ⟨next, first, hcmd, hfirst, hserved⟩ := serveCmd_on fuel handle headed
                obtain ⟨more, hmore, hothers⟩ := ih next
                have hturn : receive logged buff st = .ok next := by rw [receive, hheader]; exact hcmd
                have hsame : headed.device = st.device := (receiveHeader_keeps hheader).1
                rw [hturn] at hserve ⊢
                replace hserve : serve logged (piece :: pieces) st = serve logged pieces next := hserve
                refine ⟨first ++ more, hmore.trans (by rw [hfirst, hsame, List.append_assoc]), ?_⟩
                intro vars answers
                rw [hclient, if_neg hgone, hon, hheader, hserve]
                simp only [Except.map, pyLift, pure_bind, hserved, bind_assoc, hothers, serveCmds_append,
                  List.append_assoc]

theorem requestsOf_served {pieces : List (List Byte)} (h : serve logged pieces st = .ok st') :
    requestsOf pieces st = st'.device := by
  induction pieces generalizing st with
  | nil =>
      cases h
      rfl
  | cons piece pieces ih =>
      rw [serve] at h
      obtain ⟨buff, hdecode, hserve⟩ := except_bind_ok h
      rw [requestsOf, hdecode]
      dsimp only
      by_cases hgone : buff = []
      · rw [if_pos hgone] at hserve ⊢
        cases hserve
        rfl
      · rw [if_neg hgone] at hserve ⊢
        obtain ⟨next, hnext, hrest⟩ := except_bind_ok hserve
        rw [hnext]
        exact ih hrest

/-- What the loop takes of the requests in a stream that may break off: all but the backlog. -/
theorem serve_takes {todo : List MiTunerRequest} {pieces : List (List Byte)} {lost : List Char}
    (hpieces : ∀ piece ∈ pieces, piece ≠ []) (hascii : ∀ piece ∈ pieces, ∀ b ∈ piece, b.toNat < 0x80)
    (h : Waiting todo (asciiText pieces.flatten ++ lost) st) :
    ∃ st', serve logged pieces st = .ok st' ∧ st'.device = st.device ++
      (todo.take (todo.length - (backlog todo st.unread.length pieces).length)).map
        fun r => (r.header, r.body) := by
  induction pieces generalizing st todo with
  | nil =>
      refine ⟨st, rfl, ?_⟩
      rw [backlog, Nat.sub_self, List.take_zero, List.map_nil, List.append_nil]
  | cons piece pieces ih =>
      have hdecode := pyDecode_ascii (hascii piece List.mem_cons_self)
      have hchars : (asciiText piece).length = piece.length := List.length_map _
      have hne : asciiText piece ≠ [] := fun hnil =>
        hpieces piece List.mem_cons_self (List.map_eq_nil_iff.1 hnil)
      have hothers := fun p hp => hpieces p (List.mem_cons_of_mem piece hp)
      have hascii' := fun p hp => hascii p (List.mem_cons_of_mem piece hp)
      rw [List.flatten_cons, asciiText, List.map_append, ← asciiText, ← asciiText, List.append_assoc] at h
      cases todo with
      | nil =>
          have hnil := List.append_eq_nil_iff.1 h.text
          exact absurd (List.append_eq_nil_iff.1 hnil.2).1 hne
      | cons r rest =>
          rw [backlog]
          by_cases hdone : r.text.length ≤ st.unread.length + piece.length
          · obtain ⟨next, hrun, hwaiting, hlen, hdevice, -⟩ :=
              @receive_complete _ logged _ _ _ _ _ _ _ h (by rw [hchars]; exact hdone) rfl
            obtain ⟨last, hserve, hlast⟩ := ih hothers hascii' hwaiting
            have hunread : st.unread.length + piece.length - r.text.length = next.unread.length := by omega
            have hle := backlog_length_le rest next.unread.length pieces
            have hcount : (r :: rest).length - (backlog rest next.unread.length pieces).length
                = rest.length - (backlog rest next.unread.length pieces).length + 1 := by
              rw [List.length_cons]
              omega
            rw [if_pos hdone, hunread, serve_cons hdecode hne hrun]
            refine ⟨last, hserve, ?_⟩
            rw [hlast, hdevice, hcount, List.take_succ_cons, List.map_cons, List.append_assoc,
              List.singleton_append]
          · have hshort : ∀ r' ∈ (r :: rest).head?,
                st.unread.length + (asciiText piece).length < r'.text.length := by
              intro r' heq
              cases heq
              omega
            obtain ⟨next, hrun, hwaiting, hlen, hdevice, -⟩ := @receive_incomplete _ logged _ _ _ _ h hshort
            rw [hchars] at hlen
            obtain ⟨last, hserve, hlast⟩ := ih hothers hascii' hwaiting
            rw [if_neg hdone, ← hlen, serve_cons hdecode hne hrun]
            refine ⟨last, hserve, ?_⟩
            rw [hlast, hdevice]

end Loop

end VprocSdk
