import LiteWebServer.UserConn.Phases

namespace LiteWebServer

open Data

/-! Whether a connection that waits for input has room for it. -/

namespace Link

/-- The buffer has a free byte whenever the socket is armed for reading, so `recv` is not
called for nothing. -/
def HasRoom (link : Link) : Prop :=
  link.arming = .read → link.conn.bufferRBytes < link.conn.bufferR.length

/-- The bytes the connection has once its buffer is full. -/
def filled (link : Link) (offer : Bytes) : Bytes :=
  (link.conn.bufferR.take link.conn.bufferRBytes ++ offer).take bufferMinSizeR

/-- What is on offer leaves a byte of the buffer free, or it ends the request with the byte
that fills the buffer at the latest. -/
def Holds (link : Link) : LinkEvent → Prop
  | .processIn errno offer =>
      link.conn.bufferRBytes + offer.length < bufferMinSizeR ∨
        ∃ req n after, link.conn.req.parse errno (link.filled offer) link.conn.reqParsedBytes =
          .ok (req, n, after) ∧ req.parseComplete = true
  | _ => True

variable {order : HashOrder Bytes Bytes} {server : Server} {link after : Link} {errno : Errno}
  {offer : Bytes}

/-- A read that fills the buffer leaves nothing of the old bytes. -/
theorem writeAt_filled (phase : link.InPhase)
    (full : bufferMinSizeR ≤ link.conn.bufferRBytes + offer.length) :
    UserConn.writeAt link.conn.bufferR link.conn.bufferRBytes
      (offer.take (bufferMinSizeR - link.conn.bufferRBytes)) = link.filled offer := by
  have fill := phase.fill
  have size := phase.size
  have front : (link.conn.bufferR.take link.conn.bufferRBytes).length = link.conn.bufferRBytes := by
    rw [List.length_take]
    omega
  have taken : (offer.take (bufferMinSizeR - link.conn.bufferRBytes)).length =
      bufferMinSizeR - link.conn.bufferRBytes := by
    rw [List.length_take]
    omega
  have whole : (link.conn.bufferR.take link.conn.bufferRBytes).take bufferMinSizeR =
      link.conn.bufferR.take link.conn.bufferRBytes := List.take_of_length_le (by omega)
  rw [UserConn.writeAt, taken, List.drop_eq_nil_of_le (by omega), List.append_nil, filled,
    List.take_append, front, whole]

theorem processIn_keeps (phase : link.InPhase) (room : link.HasRoom) (reading : link.arming = .read)
    (ran : link.fire.processIn errno offer = .ok after) :
    after.HasRoom ↔ link.Holds (.processIn errno offer) := by
  have free := room reading
  rw [phase.size] at free
  have left : sizeSub link.conn.bufferR.length link.conn.bufferRBytes =
      bufferMinSizeR - link.conn.bufferRBytes := by rw [phase.size, sizeSub_of_le phase.fill]
  have shape : link.fire.processIn errno offer = (link.conn.processIn errno offer).map fun ran =>
      { link.fire with conn := ran.1 }.call ran.2.1 := processIn_eq
  rw [shape] at ran
  by_cases nothing : offer.take (sizeSub link.conn.bufferR.length link.conn.bufferRBytes) = []
  · rw [UserConn.processIn_nothing (if_pos nothing)] at ran
    cases ran
    have none : offer = [] := by
      rw [left, List.take_eq_nil_iff] at nothing
      exact nothing.resolve_left (by omega)
    refine iff_of_true (fun _ => room reading) (.inl ?_)
    rw [none]
    exact free
  · cases processed : link.conn.processIn errno offer with
    | error fault =>
        rw [processed] at ran
        cases ran
    | ok result =>
        obtain ⟨conn, loopCall, errno'⟩ := result
        rw [processed] at ran
        obtain ⟨req, more, parsed, rfl, rfl⟩ := UserConn.processIn_parsed (if_neg nothing) processed
        cases ran
        have fits := @recvFromCli_fits offer link.conn phase.size phase.fill
        rw [UserConn.recvFromCli, if_neg nothing, left] at fits
        rw [left] at parsed ⊢
        obtain ⟨size, -, -⟩ := fits
        have count : (offer.take (bufferMinSizeR - link.conn.bufferRBytes)).length =
            min (bufferMinSizeR - link.conn.bufferRBytes) offer.length := List.length_take
        dsimp only at size parsed
        by_cases full : bufferMinSizeR ≤ link.conn.bufferRBytes + offer.length
        · rw [writeAt_filled phase full] at parsed
          cases complete : req.parseComplete with
          | true =>
              refine iff_of_true (fun waits => ?_) (.inr ⟨req, more, errno', parsed, complete⟩)
              cases waits
          | false =>
              refine iff_of_false (fun roomy => ?_) (fun holds => ?_)
              · have short := roomy rfl
                dsimp only [call] at short
                rw [size, count] at short
                omega
              · rcases holds with short | ⟨req', n, after, parsed', complete'⟩
                · omega
                · rw [parsed, Except.ok.injEq, Prod.mk.injEq] at parsed'
                  rw [← parsed'.1, complete] at complete'
                  cases complete'
        · refine iff_of_true (fun _ => ?_) (.inl (Nat.lt_of_not_le full))
          dsimp only [call]
          rw [size, count]
          omega

theorem fresh_hasRoom : (fresh order).HasRoom := by
  intro _
  rw [fresh_inPhase.size]
  exact (by decide : 0 < bufferMinSizeR)

theorem processOut_hasRoom (phase : link.InPhase) (writing : link.arming = .write)
    (answers : OutAnswers) : (link.fire.processOut order server answers).HasRoom := by
  obtain ⟨-, held, -⟩ := @InPhase.processOut order server link phase writing answers
  intro reading
  rw [held.size]
  obtain ⟨conn, -, -, did⟩ := UserConn.processOutAny_did answers
    (rfl : link.fire.conn.processOutAny order server answers = _)
  unfold Link.processOut at reading ⊢
  dsimp only at reading ⊢
  generalize link.fire.conn.processOutAny order server answers = result at did reading ⊢
  rcases did with ⟨-, -, call⟩ | ⟨-, -, left, -⟩ | ⟨-, -, -, call⟩
  · rw [call] at reading
    cases reading
  · rw [left]
    obtain ⟨-, filled, -⟩ := conn.connStateReset_receiving order
    exact filled.trans_lt (by decide)
  · rw [call] at reading
    cases reading

theorem next_keeps {event : LinkEvent} {note : LinkNote} (phase : link.InPhase) (room : link.HasRoom)
    (stepped : next order server link event = some (after, note)) :
    after.InPhase ∧ (after.HasRoom ↔ link.Holds event) := by
  refine ⟨(phase.next stepped).1, ?_⟩
  cases event with
  | processIn errno offer =>
      rw [next] at stepped
      split at stepped
      · rename_i reading
        split at stepped
        · rename_i last ran
          cases stepped
          exact processIn_keeps phase room reading ran
        · cases stepped
      · cases stepped
  | processOut answers =>
      rw [next] at stepped
      split at stepped
      · rename_i writing
        cases stepped
        exact iff_of_true (processOut_hasRoom phase writing answers) trivial
      · cases stepped
  | handleConnClose =>
      rw [next] at stepped
      split at stepped
      · cases stepped
      · cases stepped
        exact iff_of_true (fun reading => by cases reading) trivial

/-- There is room in every state of a run exactly when each read leaves some, or ends a
request. -/
theorem room_iff_holds (order : HashOrder Bytes Bytes) (server : Server) (events : List LinkEvent) :
    (∀ earlier link notes, earlier <+: events →
      System.follow (next order server) (fresh order) earlier = some (link, notes) → link.HasRoom) ↔
    ∀ earlier event link notes, earlier ++ [event] <+: events →
      System.follow (next order server) (fresh order) earlier = some (link, notes) →
        (next order server link event).isSome → link.Holds event :=
  System.follow_keeps_iff (fun _ => next_keeps) fresh_inPhase fresh_hasRoom

/-- A full buffer is never emptied: each `process_in` finds the connection as the last one
left it, armed to be read from again. -/
theorem full_stays_armed (full : link.conn.bufferRBytes = link.conn.bufferR.length)
    (reading : link.arming = .read) (reads : List (Errno × Bytes)) :
    ∃ last notes, System.follow (next order server) link
        (reads.map fun read => .processIn read.1 read.2) = some (last, notes) ∧
      last.conn = link.conn ∧ last.arming = .read := by
  induction reads generalizing link with
  | nil => exact ⟨link, [], rfl, rfl, reading⟩
  | cons read later ih =>
      have nothing : read.2.take (sizeSub link.conn.bufferR.length link.conn.bufferRBytes) = [] := by
        rw [full, sizeSub_of_le (Nat.le_refl _), Nat.sub_self, List.take_zero]
      have ran : link.fire.processIn read.1 read.2 =
          .ok ({ link.fire with conn := link.conn }.call .modConnEventRead) := by
        rw [processIn_eq, show link.fire.conn = link.conn from rfl,
          UserConn.processIn_nothing (if_pos nothing)]
        rfl
      have stepped : next order server link (.processIn read.1 read.2) =
          some ({ link.fire with conn := link.conn }.call .modConnEventRead,
            .processIn [.modConnEventRead]) := by
        rw [next, if_pos reading, ran]
        rfl
      obtain ⟨last, notes, ran, same, armed⟩ :=
        @ih ({ link.fire with conn := link.conn }.call .modConnEventRead) full rfl
      exact ⟨last, _, System.follow_cons.mpr ⟨_, _, notes, stepped, ran, rfl⟩, same, armed⟩

/-- 2048 bytes without a line end. -/
def longLine : Bytes := List.replicate bufferMinSizeR 97

def bareServer : Server := .builtin (.front Bytes Bytes) (bytes "/www") fun _ => none

theorem long_line_fills_buffer :
    ∃ link notes, System.follow (next (.front Bytes Bytes) bareServer) (fresh (.front Bytes Bytes))
        [.processIn .clear longLine] = some (link, notes) ∧
      link.arming = .read ∧ ¬ link.HasRoom ∧
      ∀ reads : List (Errno × Bytes), ∃ last notes, System.follow (next (.front Bytes Bytes) bareServer)
          link (reads.map fun read => .processIn read.1 read.2) = some (last, notes) ∧
        last.conn = link.conn ∧ last.arming = .read := by
  have outcome : ((fresh (.front Bytes Bytes)).fire.processIn .clear longLine).toOption.map (fun link =>
      (link.arming, link.conn.bufferRBytes, link.conn.bufferR.length)) =
      some (.read, bufferMinSizeR, bufferMinSizeR) := by decide +kernel
  obtain ⟨link, ran, read⟩ := ok_of_map outcome
  obtain ⟨armed, filled, size⟩ : link.arming = .read ∧ link.conn.bufferRBytes = bufferMinSizeR ∧
      link.conn.bufferR.length = bufferMinSizeR := by simpa using read
  have full : link.conn.bufferRBytes = link.conn.bufferR.length := filled.trans size.symm
  have waiting : (fresh (.front Bytes Bytes)).arming = .read := rfl
  have stepped :
      next (.front Bytes Bytes) bareServer (fresh (.front Bytes Bytes)) (.processIn .clear longLine) =
      some (link, .processIn link.calls) := by
    rw [next, if_pos waiting, ran]
  exact ⟨link, _, System.follow_cons.mpr ⟨_, _, [], stepped, rfl, rfl⟩, armed,
    fun room => (room armed).ne full, fun reads => full_stays_armed full armed reads⟩

end Link

end LiteWebServer
