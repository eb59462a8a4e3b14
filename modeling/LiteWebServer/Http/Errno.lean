import LiteWebServer.Http.ContentLength
import LiteWebServer.Http.Steps

namespace LiteWebServer

open Data

/-! What calls of `parse` on one thread have to do with each other through `errno`,
which `str_to_inum` reads without clearing it first. -/

/-- The text up to its first `NUL` begins, behind blanks and a sign, with a number that does
not fit. -/
def Oversized (value : Bytes) : Prop :=
  ∃ blank sign digits rest, StrtoulFront (cStr value) blank sign digits rest ∧
    2 ^ 64 ≤ decimalValue digits

theorem strToInum_errno_eq (errno : Errno) (value : Bytes) :
    (strToInum strtoul errno value).2 = (strtoul errno (cStr value)).2.2 := by
  unfold strToInum
  dsimp only
  split
  · rfl
  · split <;> rfl

/-- `strtoul` sets `ERANGE` for a number that does not fit, and leaves `errno` alone
otherwise. -/
theorem strToInum_errno (errno : Errno) (value : Bytes) :
    Oversized value ∧ (strToInum strtoul errno value).2 = .erange ∨
      ¬ Oversized value ∧ (strToInum strtoul errno value).2 = errno := by
  by_cases large : Oversized value
  · refine .inl ⟨large, ?_⟩
    obtain ⟨blank, sign, digits, rest, shape, large⟩ := large
    rw [strToInum_errno_eq, strtoul_front shape, if_pos large]
  · refine .inr ⟨large, ?_⟩
    rw [strToInum_errno_eq]
    rcases strtoul_cases (cStr value) with none | ⟨blank, sign, digits, rest, shape⟩
    · rw [none]
    · rw [strtoul_front shape, if_neg fun wide => large ⟨blank, sign, digits, rest, shape, wide⟩]

theorem strToInum_stale (value : Bytes) : (strToInum strtoul .erange value).1 = none := by
  obtain ⟨errno, failed⟩ := HttpRequest.strToInum_erange value
  rw [failed]

/-- The result of `str_to_inum` is the same under every `errno` only when it is a failure. -/
theorem strToInum_same_iff (value : Bytes) :
    (∀ errno errno', (strToInum strtoul errno value).1 = (strToInum strtoul errno' value).1) ↔
      ¬ Convertible value := by
  rw [convertible_iff, not_not]
  constructor
  · intro same
    exact (same .clear .erange).trans (strToInum_stale value)
  · intro failed
    have fails (errno : Errno) : (strToInum strtoul errno value).1 = none := by
      by_cases stale : errno = .erange
      · rw [stale, strToInum_stale]
      · rw [strToInum_of_ne_erange stale, failed]
    intro errno errno'
    rw [fails, fails]

namespace HttpRequest

/-- The value that the call of `parse` gives to `str_to_inum`, if it comes to that. -/
def conversion? (req : HttpRequest) (data : Bytes) (startIdx : Nat) : Option Bytes :=
  if req.state = .parseSuccess ∨ data.length ≤ startIdx then none
  else
    match req.parseHead data startIdx with
    | .error _ => none
    | .ok (next, parsedBytes) =>
        if next.state = .parseBody ∧ next.method = .post ∧
            u32 (startIdx + parsedBytes) < data.length then
          next.headers.lookup (bytes "Content-Length")
        else none

/-- A call of `parse` on the thread. -/
structure ParseCall where
  req : HttpRequest
  data : Bytes
  startIdx : Nat

/-- What happens on the thread: a call of `parse`, or a library call elsewhere in the program,
such as the last `read` of `cmd_recv` or an `open` that fails, that leaves `errno` at a value. -/
inductive ThreadEvent where
  | parse (call : ParseCall)
  | leaves (errno : Errno)

/-- What one event after the other makes of `errno`. -/
def errnoAfter (errno : Errno) : List ThreadEvent → Except Fault Errno
  | [] => .ok errno
  | .parse call :: later => do
      let (_, _, errno) ← call.req.parse errno call.data call.startIdx
      errnoAfter errno later
  | .leaves errno :: later => errnoAfter errno later

namespace ThreadEvent

/-- The event is a call that converts a number that does not fit, or one elsewhere that leaves
`ERANGE`. -/
def Ranges : ThreadEvent → Prop
  | .parse call =>
      ∃ value, call.req.conversion? call.data call.startIdx = some value ∧ Oversized value
  | .leaves errno => errno = .erange

/-- The event overwrites an `ERANGE`. -/
def Overwrites : ThreadEvent → Prop
  | .parse _ => False
  | .leaves errno => errno ≠ .erange

end ThreadEvent

/-- Some event left `ERANGE`, and nothing has overwritten it. -/
def RangeStands (earlier : List ThreadEvent) : Prop :=
  ∃ before event later, earlier = before ++ event :: later ∧ event.Ranges ∧
    ∀ other ∈ later, ¬ other.Overwrites

variable {req next : HttpRequest} {errno after : Errno} {data : Bytes} {startIdx count : Nat}

/-- Without a conversion the call neither looks at `errno` nor changes it. -/
theorem parse_unconverted (none : req.conversion? data startIdx = none) (errno : Errno) :
    req.parse errno data startIdx =
      (req.parse .clear data startIdx).map fun (next, count, _) => (next, count, errno) := by
  unfold conversion? at none
  by_cases idle : req.state = .parseSuccess ∨ data.length ≤ startIdx
  · rw [parse, if_pos idle, parse, if_pos idle]
    rfl
  · rw [if_neg idle] at none
    rw [parse_eq_head idle, parse_eq_head idle]
    cases head : req.parseHead data startIdx with
    | error fault => rfl
    | ok reached =>
        obtain ⟨next, parsedBytes⟩ := reached
        rw [head] at none
        dsimp only at none
        simp only [bind, Except.bind]
        by_cases inBody : next.state = .parseBody
        · rw [if_pos inBody, if_pos inBody]
          cases method : next.method with
          | post =>
              cases lookup : next.headers.lookup (bytes "Content-Length") with
              | none =>
                  simp only [parseReqBody, method, lookup]
                  rfl
              | some value =>
                  have beyond : data.length ≤ u32 (startIdx + parsedBytes) := by
                    by_contra inside
                    rw [if_pos ⟨inBody, method, Nat.not_le.mp inside⟩, lookup] at none
                    cases none
                  simp only [parseReqBody, method, lookup, if_pos beyond]
                  rfl
          | _ =>
              simp only [parseReqBody, method]
              rfl
        · rw [if_neg inBody, if_neg inBody]
          rfl

/-- With a conversion the call depends on `errno` through the result of `str_to_inum`
alone, which decides whether the request is bad. -/
theorem parse_converted {value : Bytes} (found : req.conversion? data startIdx = some value) :
    ∃ (result : Option Nat → HttpRequest × Nat) (next : HttpRequest),
      (∀ errno, req.parse errno data startIdx =
        .ok ((result (strToInum strtoul errno value).1).1,
          (result (strToInum strtoul errno value).1).2, (strToInum strtoul errno value).2)) ∧
      (result none).1 = next.setBadReq ∧ ParseSteps req next ∧ next.state = .parseBody ∧
      next.method = .post ∧ ∀ len, (result (some len)).1.isBadReq = next.isBadReq := by
  unfold conversion? at found
  by_cases idle : req.state = .parseSuccess ∨ data.length ≤ startIdx
  · rw [if_pos idle] at found
    cases found
  · rw [if_neg idle] at found
    cases head : req.parseHead data startIdx with
    | error fault =>
        rw [head] at found
        cases found
    | ok reached =>
        obtain ⟨next, parsedBytes⟩ := reached
        rw [head] at found
        dsimp only at found
        split at found
        · rename_i due
          obtain ⟨inBody, post, inside⟩ := due
          let start := u32 (startIdx + parsedBytes)
          let remain (contentLen : Nat) : Nat :=
            if data.length - start < sizeSub contentLen next.body.length then data.length - start
            else sizeSub contentLen next.body.length
          let body (contentLen : Nat) : Bytes :=
            next.body ++ (data.drop start).take (remain contentLen)
          let result (converted : Option Nat) : HttpRequest × Nat :=
            converted.elim (next.setBadReq, u32 parsedBytes) fun contentLen =>
              ({ next with
                  body := body contentLen,
                  state := if (body contentLen).length = contentLen then .parseSuccess else next.state },
                u32 (parsedBytes + u32 (remain contentLen)))
          refine ⟨result, next, fun errno => ?_, rfl, parseHead_steps head, inBody, post, fun len => rfl⟩
          rw [parse_eq_head idle, head]
          simp only [bind, Except.bind, if_pos inBody, parseReqBody_errno post found inside]
          cases (strToInum strtoul errno value).1 with
          | none => rfl
          | some len =>
              simp only [substr, if_pos (Nat.le_of_lt inside), pure, Except.pure]
              simp only [result, Option.elim_some, body, remain, start]
              split <;> split <;> rfl
        · cases found

theorem conversion?_parse {value : Bytes} (found : req.conversion? data startIdx = some value)
    (ran : req.parse errno data startIdx = .ok (next, count, after)) :
    Oversized value ∧ after = .erange ∨ ¬ Oversized value ∧ after = errno := by
  obtain ⟨result, -, runs, -⟩ := parse_converted found
  rw [runs, Except.ok.injEq] at ran
  cases ran
  exact strToInum_errno errno value

theorem outcome_unconverted (none : req.conversion? data startIdx = none) (errno : Errno) :
    req.outcome errno data startIdx = req.outcome .clear data startIdx := by
  rw [outcome, parse_unconverted none, outcome]
  cases req.parse .clear data startIdx <;> rfl

/-- A request at its body is not bad. -/
theorem Parsed.good (parsed : Parsed req) (steps : ParseSteps req next)
    (inBody : next.state = .parseBody) : next.isBadReq = false := by
  have complete : req.isBadReq = true → req.state = .parseSuccess :=
    parsed.invariant (fun req => req.isBadReq = true → req.state = .parseSuccess)
      (by simp [HttpRequest.fresh]) (by simp [HttpRequest.fresh]) fun held step => step.bad held
  have still := steps.invariant (fun req => req.isBadReq = true → req.state = .parseSuccess)
    (fun held step => step.bad held) complete
  by_contra bad
  simp [still (by simpa using bad)] at inBody

/-- A call whose number is good by itself goes wrong under a stale `ERANGE`, and only then. -/
theorem outcome_stale_iff (parsed : Parsed req) (errno : Errno) :
    req.outcome errno data startIdx = req.outcome .clear data startIdx ↔
      errno ≠ .erange ∨ ∀ value ∈ req.conversion? data startIdx, ¬ Convertible value := by
  cases found : req.conversion? data startIdx with
  | none => exact iff_of_true (outcome_unconverted found errno) (.inr nofun)
  | some value =>
      obtain ⟨result, next, runs, refuses, steps, inBody, -, good⟩ := parse_converted found
      have seen (errno : Errno) : req.outcome errno data startIdx =
          .ok ⟨(result (strToInum strtoul errno value).1).1.isBadReq,
            (result (strToInum strtoul errno value).1).1.parseComplete,
            (result (strToInum strtoul errno value).1).1.body,
            (result (strToInum strtoul errno value).1).2⟩ := by
        rw [outcome, runs]
        rfl
      simp only [seen, Option.mem_some_iff, forall_eq', convertible_iff, not_not]
      by_cases stale : errno = .erange
      · rw [stale, strToInum_stale]
        change _ = Except.ok (Outcome.mk (result (contentLength value)).1.isBadReq _ _ _) ↔ _
        cases converted : contentLength value with
        | none => exact iff_of_true (by rw [← contentLength, converted]) (.inr rfl)
        | some len =>
            refine iff_of_false (fun same => ?_) (by simp)
            have flags := congrArg Outcome.isBadReq (Except.ok.inj same)
            dsimp only at flags
            rw [refuses, good len, parsed.good steps inBody] at flags
            cases flags
      · have same : (strToInum strtoul errno value).1 = (strToInum strtoul .clear value).1 :=
          strToInum_of_ne_erange stale value
        rw [same]
        exact iff_of_true rfl (.inl stale)

/-- What one event makes of `errno`. -/
theorem errnoAfter_one {event : ThreadEvent} (ran : errnoAfter errno [event] = .ok after) :
    after = .erange ↔ event.Ranges ∨ errno = .erange ∧ ¬ event.Overwrites := by
  cases event with
  | leaves errno' =>
      cases ran
      simp [ThreadEvent.Ranges, ThreadEvent.Overwrites]
  | parse call =>
      obtain ⟨⟨next, count, between⟩, parsed, ran⟩ := bind_eq_ok.mp ran
      cases ran
      dsimp only [ThreadEvent.Ranges, ThreadEvent.Overwrites]
      cases found : call.req.conversion? call.data call.startIdx with
      | none =>
          rw [parse_unconverted found] at parsed
          cases alone : call.req.parse .clear call.data call.startIdx with
          | error fault => simp [alone, Except.map] at parsed
          | ok result =>
              simp only [alone, Except.map, Except.ok.injEq, Prod.mk.injEq] at parsed
              simp [← parsed.2.2]
      | some value =>
          rcases conversion?_parse found parsed with ⟨large, same⟩ | ⟨fits, same⟩
          · simp [same, large]
          · simp [same, fits]

theorem errnoAfter_cons {event : ThreadEvent} {later : List ThreadEvent}
    (ran : errnoAfter errno (event :: later) = .ok after) :
    ∃ between, errnoAfter errno [event] = .ok between ∧ errnoAfter between later = .ok after := by
  cases event with
  | leaves errno' => exact ⟨errno', rfl, ran⟩
  | parse call =>
      obtain ⟨⟨next, count, between⟩, parsed, ran⟩ := bind_eq_ok.mp ran
      exact ⟨between, by rw [errnoAfter, parsed]; rfl, ran⟩

/-- `ERANGE` is there after a history exactly when it was left by the history and stands, or was
there before it and was not overwritten. -/
theorem errnoAfter_erange_iff {earlier : List ThreadEvent}
    (ran : errnoAfter errno earlier = .ok after) :
    after = .erange ↔
      RangeStands earlier ∨ errno = .erange ∧ ∀ event ∈ earlier, ¬ event.Overwrites := by
  induction earlier generalizing errno with
  | nil =>
      cases ran
      simp [RangeStands]
  | cons event later ih =>
      obtain ⟨between, first, rest⟩ := errnoAfter_cons ran
      have stands : RangeStands (event :: later) ↔
          RangeStands later ∨ event.Ranges ∧ ∀ other ∈ later, ¬ other.Overwrites := by
        constructor
        · intro held
          obtain ⟨before, ranging, after, whole, ranges, still⟩ := held
          rcases List.cons_eq_append_iff.mp whole with ⟨-, same⟩ | ⟨front, -, inside⟩
          · cases same
            exact .inr ⟨ranges, still⟩
          · exact .inl ⟨front, ranging, after, inside, ranges, still⟩
        · intro held
          rcases held with ⟨before, ranging, after, rfl, ranges, still⟩ | ⟨ranges, still⟩
          · exact ⟨event :: before, ranging, after, rfl, ranges, still⟩
          · exact ⟨[], event, later, rfl, ranges, still⟩
      rw [ih rest, errnoAfter_one first, stands, List.forall_mem_cons]
      tauto

/-- One call cannot notice `errno`, and through it what the thread did before it, exactly when
it converts no text that is taken for a number. -/
theorem parse_errno_iff (parsed : Parsed req) (data : Bytes) (startIdx : Nat) :
    (∀ value, (∀ errno errno',
        (strToInum strtoul errno value).1 = (strToInum strtoul errno' value).1) ↔
      ¬ Convertible value) ∧
    ((∀ errno errno', req.outcome errno data startIdx = req.outcome errno' data startIdx) ↔
      ∀ value ∈ req.conversion? data startIdx, ¬ Convertible value) ∧
    ∀ earlier errno, errnoAfter .clear earlier = .ok errno →
      (req.outcome errno data startIdx = req.outcome .clear data startIdx ↔
        ¬ RangeStands earlier ∨ ∀ value ∈ req.conversion? data startIdx, ¬ Convertible value) := by
  refine ⟨strToInum_same_iff, ⟨fun same => ?_, fun quiet errno errno' => ?_⟩,
    fun earlier errno ran => ?_⟩
  · exact ((outcome_stale_iff parsed .erange).mp (same .erange .clear)).resolve_left (by simp)
  · rw [(outcome_stale_iff parsed errno).mpr (.inr quiet),
      (outcome_stale_iff parsed errno').mpr (.inr quiet)]
  · rw [outcome_stale_iff parsed, Ne, errnoAfter_erange_iff ran]
    simp

/-- A `POST` whose number does not fit, and one whose number does. -/
def hugePost : ParseCall :=
  ⟨fresh, bytes "POST / HTTP/1.1\r\nContent-Length: 99999999999999999999\r\n\r\nhello", 0⟩

def shortPost : Bytes := bytes "POST / HTTP/1.1\r\nContent-Length: 5\r\n\r\nhello"

/-- A `GET` behind the first of them does not notice it, nor does a good `POST` once an `open`
has failed. -/
theorem get_after_huge_post :
    errnoAfter .clear [.parse hugePost] = .ok .erange ∧
      fresh.outcome .erange (bytes "GET / HTTP/1.1\r\n\r\n") 0 =
        fresh.outcome .clear (bytes "GET / HTTP/1.1\r\n\r\n") 0 ∧
      errnoAfter .clear [.parse hugePost, .leaves .enoent] = .ok .enoent ∧
      fresh.outcome .enoent shortPost 0 = fresh.outcome .clear shortPost 0 := by
  have ran : errnoAfter .clear [.parse hugePost] = .ok .erange := by decide +kernel
  have left : errnoAfter .clear [.parse hugePost, .leaves .enoent] = .ok .enoent := by decide +kernel
  have none : fresh.conversion? (bytes "GET / HTTP/1.1\r\n\r\n") 0 = none := by decide +kernel
  have overwritten : ¬ RangeStands [.parse hugePost, .leaves .enoent] := by
    intro stands
    obtain ⟨before, event, later, whole, ranges, still⟩ := stands
    rcases before with - | ⟨first, - | ⟨second, before⟩⟩
    · cases whole
      exact still _ (List.mem_singleton.mpr rfl) (by simp [ThreadEvent.Overwrites])
    · cases whole
      cases ranges
    · simp at whole
  exact ⟨ran, ((parse_errno_iff .fresh _ 0).2.2 _ _ ran).mpr (.inr (by simp [none])), left,
    ((parse_errno_iff .fresh shortPost 0).2.2 _ _ left).mpr (.inl overwritten)⟩

/-- A good `POST` behind the first of them is refused. -/
theorem post_after_huge_post :
    errnoAfter .clear [.parse hugePost] = .ok .erange ∧
      fresh.outcome .erange shortPost 0 = .ok ⟨true, true, [], 38⟩ ∧
      fresh.outcome .clear shortPost 0 = .ok ⟨false, true, bytes "hello", 43⟩ := by
  decide +kernel

end HttpRequest

end LiteWebServer
