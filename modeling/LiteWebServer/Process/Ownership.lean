import LiteWebServer.Process.Model

namespace LiteWebServer

open Data

/-! Every open client socket has one owner, which alone closes it. -/

def ProcessNote.closed? : ProcessNote → Option Nat
  | .closed _ _ conn => conn
  | _ => none

namespace Process

variable {pq : PriorityQueue TimerNode TimerNode.expire} {process after : Process pq}
  {note : ProcessNote} {fd : Int} {index : Nat}

structure Owned (process : Process pq) : Prop where
  tidy : ∀ (index : Nat) (loop), process.connLoops[index]? = some loop → loop.Tidy
  /-- What a loop holds is open and was given to it. -/
  owns : ∀ (index : Nat) (loop), process.connLoops[index]? = some loop → ∀ fd ∈ loop.held,
    ∃ conn : Nat, process.fds.lookup fd = some conn ∧ process.owners[conn]? = some index
  /-- What is open is with the acceptor or held by a loop. -/
  owned : ∀ fd conn, process.fds.lookup fd = some conn → process.acceptor = .accepted fd ∨
    ∃ (index : Nat) (loop : _), process.connLoops[index]? = some loop ∧ fd ∈ loop.held
  accepted : ∀ fd, process.acceptor = .accepted fd →
    process.fds.lookup fd = some process.owners.length
  /-- Two numbers never stand for one connection. -/
  apart : ∀ fd other conn, process.fds.lookup fd = some conn →
    process.fds.lookup other = some conn → fd = other
  current : ∀ (index : Nat) (loop), process.connLoops[index]? = some loop → ∀ fd conn,
    loop.conns.lookup fd = some conn → conn = process.fds.lookup fd

theorem start_owned (nthread : Nat) : (start pq nthread).Owned where
  tidy index loop found := by
    have same := List.eq_of_mem_replicate (List.mem_of_getElem? found)
    rw [same]
    exact ConnLoop.fresh_tidy
  owns index loop found fd member := by
    rw [List.eq_of_mem_replicate (List.mem_of_getElem? found)] at member
    cases member
  owned fd conn found := by cases found
  accepted fd here := by cases here
  apart fd other conn found := by cases found
  current index loop found fd conn known := by
    rw [List.eq_of_mem_replicate (List.mem_of_getElem? found)] at known
    cases known

theorem getElem?_set_cases {loops : List (ConnLoop (Option Nat) pq)}
    {moved found : ConnLoop (Option Nat) pq} {other : Nat}
    (lookup : (loops.set index moved)[other]? = some found) :
    other = index ∧ found = moved ∨ other ≠ index ∧ loops[other]? = some found := by
  rw [List.getElem?_set] at lookup
  split at lookup
  · rename_i same
    split at lookup
    · exact .inl ⟨same.symm, (Option.some.inj lookup).symm⟩
    · cases lookup
  · rename_i differs
    exact .inr ⟨Ne.symm differs, lookup⟩

/-- A socket stays in some loop's hands if the moved loop keeps it. -/
theorem holder_set {loops : List (ConnLoop (Option Nat) pq)} {loop : ConnLoop (Option Nat) pq}
    (found : loops[index]? = some loop) (moved : ConnLoop (Option Nat) pq)
    (keeps : fd ∈ loop.held → fd ∈ moved.held)
    (holder : ∃ (other : Nat) (loop' : _), loops[other]? = some loop' ∧ fd ∈ loop'.held) :
    ∃ (other : Nat) (loop' : _), (loops.set index moved)[other]? = some loop' ∧ fd ∈ loop'.held := by
  obtain ⟨other, loop', found', member⟩ := holder
  by_cases same : other = index
  · subst other
    rw [found, Option.some.injEq] at found'
    subst loop'
    exact ⟨index, moved, List.getElem?_set_self (List.getElem?_eq_some_iff.mp found).1, keeps member⟩
  · exact ⟨other, loop', (List.getElem?_set_ne (Ne.symm same)).trans found', member⟩

theorem Owned.tidy_set (owned : process.Owned) {moved : ConnLoop (Option Nat) pq}
    (tidy : moved.Tidy) (other : Nat) (loop' : ConnLoop (Option Nat) pq)
    (found : (process.connLoops.set index moved)[other]? = some loop') : loop'.Tidy := by
  rcases getElem?_set_cases found with ⟨-, rfl⟩ | ⟨-, before⟩
  · exact tidy
  · exact owned.tidy other loop' before

theorem Owned.current_set (owned : process.Owned) {loop moved : ConnLoop (Option Nat) pq}
    (found : process.connLoops[index]? = some loop)
    (conns : ∀ fd conn, moved.conns.lookup fd = some conn →
      loop.conns.lookup fd = some conn ∨ conn = process.fds.lookup fd)
    (other : Nat) (loop' : ConnLoop (Option Nat) pq)
    (found' : (process.connLoops.set index moved)[other]? = some loop') (fd : Int)
    (conn : Option Nat) (known : loop'.conns.lookup fd = some conn) :
    conn = process.fds.lookup fd := by
  rcases getElem?_set_cases found' with ⟨rfl, rfl⟩ | ⟨-, before⟩
  · exact (conns fd conn known).elim (owned.current other loop found fd conn) id
  · exact owned.current other loop' before fd conn known

theorem Owned.held_once (owned : process.Owned) {other : Nat}
    {loop loop' : ConnLoop (Option Nat) pq} (found : process.connLoops[index]? = some loop)
    (found' : process.connLoops[other]? = some loop') (member : fd ∈ loop.held)
    (member' : fd ∈ loop'.held) : other = index := by
  obtain ⟨conn, open_, owner⟩ := owned.owns index loop found fd member
  obtain ⟨conn', open', owner'⟩ := owned.owns other loop' found' fd member'
  rw [open_, Option.some.injEq] at open'
  subst conn'
  exact Option.some.inj (owner'.symm.trans owner)

/-- Until it is pushed, an accepted socket is in nobody's hands. -/
theorem Owned.not_held (owned : process.Owned) (here : process.acceptor = .accepted fd)
    {loop : ConnLoop (Option Nat) pq} (found : process.connLoops[index]? = some loop) :
    fd ∉ loop.held := by
  intro member
  obtain ⟨conn, open_, owner⟩ := owned.owns index loop found fd member
  rw [owned.accepted fd here, Option.some.injEq] at open_
  rw [← open_, List.getElem?_eq_none (Nat.le_refl _)] at owner
  cases owner

theorem Owned.number_lt (owned : process.Owned) {conn : Nat}
    (found : process.fds.lookup fd = some conn) : conn < process.acceptedCount := by
  have length_le : process.owners.length ≤ process.acceptedCount := by
    unfold acceptedCount
    split
    · exact Nat.le_succ _
    · exact Nat.le_refl _
  rcases owned.owned fd conn found with here | ⟨index, loop, at_, member⟩
  · rw [owned.accepted fd here, Option.some.injEq] at found
    rw [← found, acceptedCount, here]
    exact Nat.lt_succ_self _
  · obtain ⟨conn', found', owner⟩ := owned.owns index loop at_ fd member
    rw [found, Option.some.injEq] at found'
    subst conn'
    exact Nat.lt_of_lt_of_le (List.getElem?_eq_some_iff.mp owner).1 length_le

/-- A connection object of a loop is for a socket that the loop holds. -/
theorem Owned.conn_held (owned : process.Owned) {loop : ConnLoop (Option Nat) pq}
    (found : process.connLoops[index]? = some loop) {conn : Option Nat}
    (known : loop.conns.lookup fd = some conn) : fd ∈ loop.held := by
  have present : fd ∈ loop.conns := AList.lookup_isSome.mp (by rw [known]; rfl)
  exact List.mem_append_right _ (List.mem_append_right _ (List.mem_append_left _
    ((owned.tidy index loop found).known fd present)))

theorem Owned.accept (owned : process.Owned) (here : process.acceptor = .accepting)
    (new : fd ∉ process.fds) :
    Owned { process with
      fds := process.fds.insert fd process.owners.length, acceptor := .accepted fd } := by
  have differs {other : Int} {conn : Nat} (found : process.fds.lookup other = some conn) :
      other ≠ fd := fun same => new (AList.lookup_isSome.mp (by rw [← same, found]; rfl))
  have older {other : Int} {conn : Nat} (found : process.fds.lookup other = some conn) :
      conn ≠ process.owners.length := by
    have below := owned.number_lt found
    rw [acceptedCount, here] at below
    exact Nat.ne_of_lt below
  have lookup (other : Int) : (process.fds.insert fd process.owners.length).lookup other =
      if other = fd then some process.owners.length else process.fds.lookup other := by
    by_cases same : other = fd
    · rw [same, AList.lookup_insert, if_pos rfl]
    · rw [AList.lookup_insert_ne same, if_neg same]
  refine ⟨owned.tidy, fun index loop found other member => ?_, fun other conn found => ?_,
    fun other same => ?_, fun first second conn found found' => ?_,
    fun index loop found other conn known => ?_⟩
  · obtain ⟨conn, found', owner⟩ := owned.owns index loop found other member
    exact ⟨conn, by rw [lookup, if_neg (differs found'), found'], owner⟩
  · dsimp only at found
    rw [lookup] at found
    by_cases same : other = fd
    · exact .inl (congrArg AcceptorPc.accepted same.symm)
    · rw [if_neg same] at found
      rcases owned.owned other conn found with other_ | held
      · rw [here] at other_
        cases other_
      · exact .inr held
  · cases same
    rw [lookup, if_pos rfl]
  · dsimp only at found found'
    rw [lookup] at found found'
    split at found <;> split at found'
    · rename_i one two
      rw [one, two]
    · exact absurd (Option.some.inj found).symm (older found')
    · exact absurd (Option.some.inj found').symm (older found)
    · exact owned.apart first second conn found found'
  · have held := owned.conn_held found known
    obtain ⟨number, open_, -⟩ := owned.owns index loop found other held
    dsimp only
    rw [lookup, if_neg (differs open_)]
    exact owned.current index loop found other conn known

theorem Owned.moveLoop (owned : process.Owned) {loop moved : ConnLoop (Option Nat) pq}
    (found : process.connLoops[index]? = some loop) (tidy : moved.Tidy)
    (held : moved.held.Perm loop.held)
    (conns : ∀ fd conn, moved.conns.lookup fd = some conn →
      loop.conns.lookup fd = some conn ∨ conn = process.fds.lookup fd) :
    Owned { process with connLoops := process.connLoops.set index moved } := by
  refine ⟨owned.tidy_set tidy, fun other loop' found' fd member => ?_, fun fd conn open_ => ?_,
    owned.accepted, owned.apart, owned.current_set found conns⟩
  · rcases getElem?_set_cases found' with ⟨rfl, rfl⟩ | ⟨-, before⟩
    · exact owned.owns other loop found fd (held.mem_iff.mp member)
    · exact owned.owns other loop' before fd member
  · exact (owned.owned fd conn open_).imp_right (holder_set found moved held.mem_iff.mpr)

theorem Owned.push (owned : process.Owned) (here : process.acceptor = .accepted fd)
    {loop : ConnLoop (Option Nat) pq} (found : process.connLoops[process.poolIdx]? = some loop) :
    Owned { process with
      connLoops := process.connLoops.set process.poolIdx (loop.addClisockToQueue fd),
      owners := process.owners ++ [process.poolIdx], acceptor := .pushed } := by
  obtain ⟨tidy, effect⟩ := @ConnLoop.Tidy.addClisockToQueue _ _ process.fds.lookup _ _
    (owned.tidy _ loop found) (owned.not_held here found)
  have held := effect.held
  have last : (process.owners ++ [process.poolIdx])[process.owners.length]? =
      some process.poolIdx := by simp
  have before {conn other : Nat} (owner : process.owners[conn]? = some other) :
      (process.owners ++ [process.poolIdx])[conn]? = some other :=
    (List.getElem?_append_left (List.getElem?_eq_some_iff.mp owner).1).trans owner
  refine ⟨owned.tidy_set tidy, fun other loop' found' fd' member => ?_, fun fd' conn open_ => ?_,
    nofun, owned.apart, owned.current_set found fun _ _ => .inl⟩
  · rcases getElem?_set_cases found' with ⟨rfl, rfl⟩ | ⟨-, old⟩
    · rcases List.mem_cons.mp (held.mem_iff.mp member) with rfl | member
      · exact ⟨_, owned.accepted fd' here, last⟩
      · obtain ⟨conn, open_, owner⟩ := owned.owns _ loop found fd' member
        exact ⟨conn, open_, before owner⟩
    · obtain ⟨conn, open_, owner⟩ := owned.owns other loop' old fd' member
      exact ⟨conn, open_, before owner⟩
  · right
    have placed := List.getElem?_set_self (a := loop.addClisockToQueue fd)
      (List.getElem?_eq_some_iff.mp found).1
    rcases owned.owned fd' conn open_ with waiting | holder
    · rw [here, AcceptorPc.accepted.injEq] at waiting
      subst fd'
      exact ⟨_, _, placed, held.mem_iff.mpr List.mem_cons_self⟩
    · exact holder_set found _ (fun member => held.mem_iff.mpr (List.mem_cons_of_mem _ member)) holder

theorem Owned.close (owned : process.Owned) {loop moved : ConnLoop (Option Nat) pq}
    (found : process.connLoops[index]? = some loop) (tidy : moved.Tidy)
    (held : loop.held.Perm (fd :: moved.held)) (gone : fd ∉ moved.conns)
    (conns : ∀ fd conn, moved.conns.lookup fd = some conn →
      loop.conns.lookup fd = some conn ∨ conn = process.fds.lookup fd) :
    Owned { process with
      connLoops := process.connLoops.set index moved, fds := process.fds.erase fd } := by
  have mine : fd ∈ loop.held := held.mem_iff.mpr List.mem_cons_self
  have notMoved : fd ∉ moved.held :=
    (List.nodup_cons.mp (held.nodup_iff.mp (owned.tidy index loop found).held)).1
  have open_of {other : Int} {conn : Nat} (open_ : (process.fds.erase fd).lookup other = some conn) :
      other ≠ fd ∧ process.fds.lookup other = some conn := by
    by_cases same : other = fd
    · rw [same, AList.lookup_erase] at open_
      cases open_
    · exact ⟨same, by rwa [AList.lookup_erase_ne same] at open_⟩
  have still {other : Int} (differs : other ≠ fd) :
      (process.fds.erase fd).lookup other = process.fds.lookup other :=
    AList.lookup_erase_ne differs
  refine ⟨owned.tidy_set tidy, fun other loop' found' fd' member => ?_, fun fd' conn open_ => ?_,
    fun fd' waiting => ?_, fun first second conn one two => ?_,
    fun other loop' found' fd' conn known => ?_⟩
  · rcases getElem?_set_cases found' with ⟨rfl, rfl⟩ | ⟨differs, before⟩
    · obtain ⟨conn, open_, owner⟩ :=
        owned.owns other loop found fd' (held.mem_iff.mpr (List.mem_cons_of_mem _ member))
      exact ⟨conn, (still fun same => notMoved (same ▸ member)).trans open_, owner⟩
    · obtain ⟨conn, open_, owner⟩ := owned.owns other loop' before fd' member
      refine ⟨conn, (still ?_).trans open_, owner⟩
      intro same
      subst same
      exact differs (owned.held_once found before mine member)
  · obtain ⟨differs, before⟩ := open_of open_
    refine (owned.owned fd' conn before).imp_right (holder_set found moved fun member => ?_)
    exact (List.mem_cons.mp (held.mem_iff.mp member)).resolve_left differs
  · refine (still ?_).trans (owned.accepted fd' waiting)
    intro same
    subst same
    exact owned.not_held waiting found mine
  · exact owned.apart first second conn (open_of one).2 (open_of two).2
  · have differs : fd' ≠ fd := by
      intro same
      subst same
      rcases getElem?_set_cases found' with ⟨rfl, rfl⟩ | ⟨differs, before⟩
      · exact gone (AList.lookup_isSome.mp (by rw [known]; rfl))
      · exact differs (owned.held_once found before mine (owned.conn_held before known))
    dsimp only
    rw [still differs]
    exact owned.current_set found conns other loop' found' fd' conn known

/-- The connection was accepted and is open no longer. -/
def Gone (process : Process pq) (conn : Nat) : Prop :=
  conn < process.acceptedCount ∧ ∀ fd, process.fds.lookup fd ≠ some conn

/-- What a step shows is what it does to the connections. -/
structure Recorded (process : Process pq) (note : ProcessNote) (after : Process pq) : Prop where
  owners : process.owners <+: after.owners
  gone : ∀ conn, after.Gone conn ↔ process.Gone conn ∨ note.closed? = some conn
  once : ∀ conn, note.closed? = some conn → ¬ process.Gone conn
  closes : ∀ index fd conn, note = .closed index fd conn →
    ∃ number : Nat, conn = some number ∧ after.owners[number]? = some index
  dispatches : ∀ index fd conn current, note = .dispatched index fd conn current →
    conn = current ∧ current.isSome = true

theorem Recorded.still (owners : process.owners <+: after.owners) (fds : after.fds = process.fds)
    (count : after.acceptedCount = process.acceptedCount)
    (plain : note = .quiet ∨ ∃ index fd conn,
      note = .dispatched index fd conn conn ∧ conn.isSome = true) : Recorded process note after := by
  have gone (conn : Nat) : after.Gone conn ↔ process.Gone conn := by rw [Gone, Gone, fds, count]
  rcases plain with rfl | ⟨index, fd, conn, rfl, known⟩
  · exact ⟨owners, fun conn => (gone conn).trans (or_iff_left nofun).symm, nofun, nofun, nofun⟩
  · refine ⟨owners, fun conn => (gone conn).trans (or_iff_left nofun).symm, nofun, nofun, ?_⟩
    intro index' fd' conn' current same
    cases same
    exact ⟨rfl, known⟩

/-- A number that is not in use brings no connection back. -/
theorem gone_accept (here : process.acceptor = .accepting) (new : fd ∉ process.fds) (conn : Nat) :
    Gone { process with
      fds := process.fds.insert fd process.owners.length, acceptor := .accepted fd } conn ↔
      process.Gone conn := by
  have absent : process.fds.lookup fd = none := AList.lookup_eq_none.mpr new
  rw [Gone, Gone, acceptedCount, acceptedCount, here]
  dsimp only
  constructor
  · intro held
    obtain ⟨below, closed⟩ := held
    have other : conn ≠ process.owners.length := by
      intro same
      subst same
      exact closed fd (AList.lookup_insert _)
    refine ⟨by omega, fun fd' open_ => closed fd' ?_⟩
    rw [AList.lookup_insert_ne, open_]
    intro same
    subst same
    rw [absent] at open_
    cases open_
  · intro held
    obtain ⟨below, closed⟩ := held
    refine ⟨by omega, fun fd' open_ => ?_⟩
    by_cases same : fd' = fd
    · rw [same, AList.lookup_insert, Option.some.injEq] at open_
      omega
    · exact closed fd' (by rwa [AList.lookup_insert_ne same] at open_)

theorem Owned.acceptorStep (owned : process.Owned)
    (stepped : process.acceptorStep fd = some (after, note)) :
    after.Owned ∧ Recorded process note after := by
  cases acceptorStep_move stepped with
  | accept here new =>
      exact ⟨owned.accept here new, List.prefix_rfl,
        fun conn => (gone_accept here new conn).trans (or_iff_left nofun).symm, nofun, nofun, nofun⟩
  | push here found =>
      refine ⟨owned.push here found, .still (List.prefix_append _ _) rfl ?_ (.inl rfl)⟩
      rw [acceptedCount, acceptedCount, here]
      simp
  | write here found wrote =>
      obtain ⟨tidy, effect⟩ := @ConnLoop.Tidy.cmdSendAddFd _ _ process.fds.lookup _ _
        (owned.tidy _ _ found) wrote
      have moved := owned.moveLoop found tidy effect.held effect.conns
      refine ⟨⟨moved.tidy, moved.owns, fun fd conn open_ => ?_, nofun, moved.apart, moved.current⟩,
        .still List.prefix_rfl rfl (by rw [acceptedCount, acceptedCount, here]) (.inl rfl)⟩
      exact .inr ((moved.owned fd conn open_).resolve_left (by dsimp only; rw [here]; nofun))

theorem Owned.loopStep (owned : process.Owned) {choice : LoopChoice}
    (stepped : process.loopStep index choice = some (after, note)) :
    after.Owned ∧ Recorded process note after := by
  obtain ⟨loop, found, rest⟩ := Option.bind_eq_some_iff.mp stepped
  obtain ⟨⟨moved, said⟩, went, shown⟩ := Option.bind_eq_some_iff.mp rest
  obtain ⟨tidy, effect⟩ := (owned.tidy index loop found).loopStep went
  have held := effect.held
  cases said with
  | closed fd =>
      cases shown
      refine ⟨owned.close found tidy held (effect.closed fd rfl) effect.conns, List.prefix_rfl,
        fun conn => ?_, fun conn same gone => gone.2 fd same, ?_, nofun⟩
      · constructor
        · intro held
          obtain ⟨below, closed⟩ := held
          refine (or_iff_not_imp_right.mpr fun other => ⟨below, fun fd' open_ => closed fd' ?_⟩)
          rw [AList.lookup_erase_ne, open_]
          intro same
          subst same
          exact other open_
        · intro either
          rcases either with ⟨below, closed⟩ | ended
          · exact ⟨below, fun fd' open_ => closed fd' (ConnLoop.lookup_of_erase open_)⟩
          · refine ⟨owned.number_lt ended, fun fd' open_ => ?_⟩
            have same := owned.apart fd' fd conn (ConnLoop.lookup_of_erase open_) ended
            rw [same, AList.lookup_erase] at open_
            cases open_
      · intro index' fd' conn same
        cases same
        exact owned.owns index loop found fd (held.mem_iff.mpr List.mem_cons_self)
  | dispatched fd conn =>
      cases shown
      obtain ⟨registered, known⟩ := effect.dispatched fd conn rfl
      have mine : fd ∈ loop.held :=
        List.mem_append_right _ (List.mem_append_right _ (List.mem_append_left _ registered))
      obtain ⟨number, open_, -⟩ := owned.owns index loop found fd mine
      have same : conn = process.fds.lookup fd :=
        known.elim (owned.current index loop found fd conn) id
      refine ⟨owned.moveLoop found tidy held effect.conns, .still List.prefix_rfl rfl rfl (.inr ?_)⟩
      exact ⟨index, fd, conn, by rw [same], by rw [same, open_]; rfl⟩
  | pushed fd => cases (ConnLoop.loopStep_step went).not_pushed
  | _ =>
      cases shown
      exact ⟨owned.moveLoop found tidy held effect.conns,
        .still List.prefix_rfl rfl rfl (.inl rfl)⟩

theorem Owned.next (owned : process.Owned) {turn : ProcessTurn}
    (stepped : process.next turn = some (after, note)) :
    after.Owned ∧ Recorded process note after := by
  cases turn with
  | acceptor fd => exact owned.acceptorStep stepped
  | loop index choice => exact owned.loopStep stepped

/-- What the closes and the dispatches of a run say about its end. -/
structure History (notes : List ProcessNote) (process : Process pq) : Prop where
  /-- A close is of an open client socket, by the loop that it was given to. -/
  closes : ∀ index fd conn, .closed index fd conn ∈ notes →
    ∃ number : Nat, conn = some number ∧ process.owners[number]? = some index
  once : (notes.filterMap ProcessNote.closed?).Nodup
  /-- What was accepted is open or closed, and not both. -/
  gone : ∀ conn, conn ∈ notes.filterMap ProcessNote.closed? ↔ process.Gone conn
  /-- An event reaches a connection that was made for what its number stands for. -/
  dispatches : ∀ index fd conn current, .dispatched index fd conn current ∈ notes →
    conn = current ∧ current.isSome = true

theorem History.start (nthread : Nat) : History [] (start pq nthread) where
  closes _ _ _ member := by cases member
  once := List.nodup_nil
  gone conn := iff_of_false List.not_mem_nil fun gone => Nat.not_lt_zero _ gone.1
  dispatches _ _ _ _ member := by cases member

theorem History.step {notes : List ProcessNote} (history : History notes process)
    (recorded : Recorded process note after) : History (notes ++ [note]) after where
  closes index fd conn member := by
    rcases List.mem_append.mp member with before | this
    · obtain ⟨number, known, owner⟩ := history.closes index fd conn before
      obtain ⟨more, grown⟩ := recorded.owners
      refine ⟨number, known, ?_⟩
      rw [← grown, List.getElem?_append_left (List.getElem?_eq_some_iff.mp owner).1, owner]
    · exact recorded.closes index fd conn (List.mem_singleton.mp this).symm
  once := by
    rw [List.filterMap_append]
    cases said : note.closed? with
    | none => simpa [said] using history.once
    | some conn =>
        have new : conn ∉ notes.filterMap ProcessNote.closed? := fun member =>
          recorded.once conn said ((history.gone conn).mp member)
        rw [List.filterMap_cons_some said, List.filterMap_nil]
        exact (List.perm_append_singleton conn _).nodup_iff.mpr
          (List.nodup_cons.mpr ⟨new, history.once⟩)
  gone conn := by
    rw [recorded.gone, ← history.gone, List.filterMap_append, List.mem_append]
    refine or_congr_right ?_
    cases said : note.closed? <;> simp [said, eq_comm]
  dispatches index fd conn current member := by
    rcases List.mem_append.mp member with before | this
    · exact history.dispatches index fd conn current before
    · exact recorded.dispatches index fd conn current (List.mem_singleton.mp this).symm

/-- What holds after any run whose notes are `notes`. -/
structure OneOwner (notes : List ProcessNote) (process : Process pq) : Prop
    extends History notes process where
  /-- An open client socket is with the acceptor, between `accept` and its queue, or it is
  held by exactly one loop. -/
  single : ∀ fd conn, process.fds.lookup fd = some conn →
    (process.acceptor = .accepted fd ∧
      ∀ (index : Nat) (loop), process.connLoops[index]? = some loop → fd ∉ loop.held) ∨
    (process.acceptor ≠ .accepted fd ∧
      ∃ (index : Nat) (loop : _), process.connLoops[index]? = some loop ∧ fd ∈ loop.held ∧
        ∀ (other : Nat) (loop'), process.connLoops[other]? = some loop' → fd ∈ loop'.held →
          other = index)
  /-- A loop holds each of its sockets in one place, and all of them are open. -/
  placed : ∀ (index : Nat) (loop), process.connLoops[index]? = some loop →
    loop.held.Nodup ∧ ∀ fd ∈ loop.held, fd ∈ process.fds
  /-- At the top of an iteration the stores of a loop agree. -/
  agreed : ∀ (index : Nat) (loop), process.connLoops[index]? = some loop → loop.pc = .waiting →
    (∀ fd, fd ∈ loop.epoll ↔ fd ∈ loop.timerMgr.timerMap) ∧ ∀ fd ∈ loop.conns, fd ∈ loop.epoll

/-- Every run, with any number of loops, any events and any reuse of numbers. -/
theorem one_owner {nthread : Nat} {notes : List ProcessNote}
    (run : (system pq nthread).Runs notes process) : OneOwner notes process := by
  obtain ⟨owned, history⟩ : process.Owned ∧ History notes process := by
    refine @System.Runs.invariant _ _ _ (fun notes process => process.Owned ∧ History notes process)
      ?_ ?_ _ _ run
    · intro process same
      subst same
      exact ⟨start_owned nthread, .start nthread⟩
    · intro notes before note after held step
      obtain ⟨owned, history⟩ := held
      obtain ⟨turn, stepped⟩ := step
      obtain ⟨owned', recorded⟩ := owned.next stepped
      exact ⟨owned', history.step recorded⟩
  refine ⟨history, fun fd conn open_ => ?_, fun index loop found => ?_,
    fun index loop found here => ?_⟩
  · by_cases waiting : process.acceptor = .accepted fd
    · exact .inl ⟨waiting, fun index loop found => owned.not_held waiting found⟩
    · obtain ⟨index, loop, found, member⟩ := (owned.owned fd conn open_).resolve_left waiting
      exact .inr ⟨waiting, index, loop, found, member, fun other loop' found' member' =>
        owned.held_once found found' member member'⟩
  · refine ⟨(owned.tidy index loop found).held, fun fd member => ?_⟩
    obtain ⟨conn, open_, -⟩ := owned.owns index loop found fd member
    exact AList.lookup_isSome.mp (by rw [open_]; rfl)
  · have tidy := owned.tidy index loop found
    refine ⟨fun fd => ?_, tidy.known⟩
    have timed := tidy.timed fd
    rw [here] at timed
    exact timed.trans (or_iff_left List.not_mem_nil)

/-- Between `accept` and the queue an open socket belongs to no loop. -/
theorem accepted_socket_unowned :
    ∃ notes process, (system (.sorted TimerNode.expire) 1).Runs notes process ∧
      ∃ fd conn, process.fds.lookup fd = some conn ∧
        ∀ loop ∈ process.connLoops, fd ∉ loop.newCliSocks ∧ fd ∉ loop.epoll := by
  have accepted : (start (.sorted TimerNode.expire) 1).next (.acceptor 7) =
      some (⟨AList.insert 7 0 ∅, [], 0, .accepted 7, [.fresh _ _]⟩, .accepted 0) := rfl
  refine ⟨_, _, (System.Runs.start rfl).step ⟨_, accepted⟩, 7, 0, rfl, ?_⟩
  intro loop member
  rw [List.mem_singleton.mp member]
  exact ⟨List.not_mem_nil, List.not_mem_nil⟩

/-- A client of the first of two loops hangs up, and its number goes to a client of the
second. -/
def reusedNumber : List ProcessTurn :=
  let turn (events : List ReadyEvent) (count : Nat) : ProcessTurn :=
    .loop 0 ⟨events, count, 0, 0, .modConnEventRead⟩
  [.acceptor 7, .acceptor 7, .acceptor 7, turn [.cmd] 0, turn [] 0, turn [] 1, turn [] 0, turn [] 0,
    turn [] 0, turn [] 0, turn [] 0, turn [] 0, turn [] 0,
    turn [.sock 7 ⟨false, true, false⟩] 0, turn [] 0, turn [] 0, turn [] 0,
    turn [.sock 7 ⟨true, false, false⟩] 0, turn [] 0, turn [] 0, .acceptor 7, .acceptor 7]

theorem one_owner_reused :
    ∃ notes process, System.follow next (start (.sorted TimerNode.expire) 2) reusedNumber =
        some (process, notes) ∧
      process.fds.lookup 7 = some 1 ∧ .closed 0 7 (some 0) ∈ notes ∧ OneOwner notes process := by
  have outcome : (System.follow next (start (.sorted TimerNode.expire) 2) reusedNumber).map
      (fun reached => (reached.1.fds.lookup 7, decide (.closed 0 7 (some 0) ∈ reached.2))) =
      some (some 1, true) := by decide +kernel
  obtain ⟨⟨process, notes⟩, followed, read⟩ := Option.map_eq_some_iff.mp outcome
  have begun : (system (.sorted TimerNode.expire) 2).Runs [] (start _ 2) := .start rfl
  exact ⟨notes, process, followed, (Prod.mk.inj read).1, of_decide_eq_true (Prod.mk.inj read).2,
    one_owner (begun.follow followed)⟩

end Process

end LiteWebServer
