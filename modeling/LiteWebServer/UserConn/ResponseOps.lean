import LiteWebServer.Data.Transition
import LiteWebServer.UserConn.Delimited

namespace LiteWebServer

open Data

/-! A response under any sequence of its public operations: what it says about its length,
and what its cached head says. -/

namespace HttpResponse

/-- The overload for a value that may be moved from. -/
def headerOperMove (order : HashOrder Bytes Bytes) (rsp : HttpResponse) (oper : HeaderOper)
    (key value : Bytes) : HttpResponse := rsp.headerOper order oper key value

end HttpResponse

inductive ResponseOp where
  | handler (call : HandlerCall)
  | headerOperMove (oper : HeaderOper) (key value : Bytes)
  | reset
  | assign (other : HttpResponse)
  | getBaseRsp

namespace ResponseOp

/-- The response afterwards, and the text that is returned, if there is one. -/
def apply (order : HashOrder Bytes Bytes) (rsp : HttpResponse) : ResponseOp → HttpResponse × Option Bytes
  | .handler call => (call.apply order rsp, none)
  | .headerOperMove oper key value => (rsp.headerOperMove order oper key value, none)
  | .reset => (rsp.reset order, none)
  | .assign other => (other, none)
  | .getBaseRsp => (rsp.getBaseRsp, some rsp.getBaseRsp.baseRsp)

end ResponseOp

/-- The operations one after the other, each with the place its table has for a new key:
the response afterwards, and all the texts returned. -/
def HttpResponse.runOps (rsp : HttpResponse) :
    List (HashOrder Bytes Bytes × ResponseOp) → HttpResponse × List Bytes
  | [] => (rsp, [])
  | (order, op) :: later =>
      let (next, text) := op.apply order rsp
      let (last, texts) := next.runOps later
      (last, text.toList ++ texts)

/-! ## The cached head -/

/-- What a head is made of. -/
structure HeadFields where
  httpVer : Bytes
  code : HttpCode
  headers : StringMap

namespace HeadFields

variable (order : HashOrder Bytes Bytes)

def headerOper (fields : HeadFields) (oper : HeaderOper) (key value : Bytes) : HeadFields :=
  match oper with
  | .add | .modify => { fields with headers := fields.headers.assign order key value }
  | .del => { fields with headers := fields.headers.erase key }
  | .clear => { fields with headers := ∅ }

/-- The type is announced with its charset, an unknown one not at all. -/
def setType (fields : HeadFields) (type : HttpContentType) (charset : Bytes) : HeadFields :=
  if type = .unknown then fields.headerOper order .del (bytes "Content-Type") []
  else
    fields.headerOper order .modify (bytes "Content-Type") (httpContentTypeToStr type ++
      if charset = [] then HttpResponse.defCharset type else bytes "; charset=" ++ charset)

def setLength (fields : HeadFields) (length : Nat) : HeadFields :=
  fields.headerOper order .add (bytes "Content-Length") (decimal length)

/-- The response without a cache: the head is rendered whenever it is asked for. -/
def apply (fields : HeadFields) : ResponseOp → HeadFields × Option Bytes
  | .handler (.setCode code) => ({ fields with code }, none)
  | .handler (.headerOper oper key value) => (fields.headerOper order oper key value, none)
  | .handler (.setBodyFile _ type charset) => (fields.setType order type charset, none)
  | .handler (.setBodyBin data type charset) =>
      ((fields.setLength order data.length).setType order type charset, none)
  | .handler .setNoBody =>
      ((fields.setLength order 0).headerOper order .del (bytes "Content-Type") [], none)
  | .headerOperMove oper key value => (fields.headerOper order oper key value, none)
  | .reset => (⟨[], .ok, HttpResponse.initialHeaders order⟩, none)
  | .assign other => (⟨other.httpVer, other.code, other.headers⟩, none)
  | .getBaseRsp => (fields, some (baseText fields.httpVer fields.code fields.headers))

def runOps (fields : HeadFields) : List (HashOrder Bytes Bytes × ResponseOp) → HeadFields × List Bytes
  | [] => (fields, [])
  | (order, op) :: later =>
      let (next, text) := fields.apply order op
      let (last, texts) := next.runOps later
      (last, text.toList ++ texts)

end HeadFields

namespace HttpResponse

variable {order : HashOrder Bytes Bytes} {rsp : HttpResponse}

def headFields (rsp : HttpResponse) : HeadFields := ⟨rsp.httpVer, rsp.code, rsp.headers⟩

theorem headerOper_headFields (oper : HeaderOper) (key value : Bytes) :
    (rsp.headerOper order oper key value).headFields = rsp.headFields.headerOper order oper key value := by
  cases oper with
  | add => rfl
  | modify => rfl
  | clear => rfl
  | del =>
      unfold headerOper
      dsimp only
      split
      · rfl
      · rename_i absent
        have same : rsp.headers.erase key = rsp.headers :=
          AList.ext (List.kerase_of_notMem_keys absent)
        exact congrArg (HeadFields.mk rsp.httpVer rsp.code) same.symm

theorem updateContentType_headFields (type : HttpContentType) (charset : Bytes) :
    (rsp.updateContentType order type charset).headFields =
      rsp.headFields.setType order type charset := by
  unfold updateContentType HeadFields.setType
  dsimp only
  by_cases unknown : type = .unknown
  · rw [if_pos unknown, if_pos unknown]
    exact headerOper_headFields _ _ _
  · rw [if_neg unknown, if_neg unknown]
    by_cases default : charset = []
    · rw [if_neg (not_not.mpr default), if_pos default]
      exact headerOper_headFields _ _ _
    · rw [if_pos default, if_neg default]
      exact headerOper_headFields _ _ _

@[simp] theorem getBaseRsp_headFields : rsp.getBaseRsp.headFields = rsp.headFields := by
  unfold getBaseRsp makeBaseRsp
  cases rsp.makedBaseRsp <;> rfl

/-- Each operation does the same with and without a cache. -/
theorem apply_headFields (op : ResponseOp) :
    ((op.apply order rsp).1.headFields, (op.apply order rsp).2) = rsp.headFields.apply order op := by
  cases op with
  | handler call =>
      cases call with
      | setCode code => rfl
      | headerOper oper key value => exact congrArg (·, none) (headerOper_headFields oper key value)
      | setBodyFile path type charset =>
          exact congrArg (·, none) (updateContentType_headFields type charset)
      | setBodyBin data type charset =>
          exact congrArg (·, none) (updateContentType_headFields type charset)
      | setNoBody => exact congrArg (·, none) (headerOper_headFields _ _ _)
  | headerOperMove oper key value => exact congrArg (·, none) (headerOper_headFields oper key value)
  | reset => rfl
  | assign other => rfl
  | getBaseRsp =>
      rw [ResponseOp.apply, getBaseRsp_headFields, getBaseRsp_baseRsp]
      rfl

/-- Whatever came before, each head that is returned is that of the fields at the time. -/
theorem cached_heads_are_fresh (ops : List (HashOrder Bytes Bytes × ResponseOp)) (rsp : HttpResponse) :
    ((rsp.runOps ops).1.headFields, (rsp.runOps ops).2) = rsp.headFields.runOps ops := by
  induction ops generalizing rsp with
  | nil => rfl
  | cons step later ih =>
      obtain ⟨order, op⟩ := step
      have first := @apply_headFields order rsp op
      rw [runOps, HeadFields.runOps, ← first]
      dsimp only
      rw [← ih]

/-! ## The announced length -/

end HttpResponse

/-- The length is announced by the setters of the body alone, and the response stays the one
that was constructed. -/
def ResponseOp.sparesLength : ResponseOp → Bool
  | .handler (.headerOper oper key _) => oper ≠ .clear ∧ key ≠ bytes "Content-Length"
  | .headerOperMove oper key _ => oper ≠ .clear ∧ key ≠ bytes "Content-Length"
  | .assign _ => false
  | _ => true

namespace HttpResponse

variable {order : HashOrder Bytes Bytes} {rsp : HttpResponse}

/-- What is sent behind the head, if it is the text kept in memory, is as long as announced. -/
def AnnouncesMemory (rsp : HttpResponse) : Prop :=
  rsp.bodyIsFile = false → rsp.announcedLength = some (decimal rsp.body.length)

theorem SameLength.announcesMemory_iff {other : HttpResponse} (same : rsp.SameLength other) :
    rsp.AnnouncesMemory ↔ other.AnnouncesMemory := by
  rw [AnnouncesMemory, AnnouncesMemory, same.body, same.bodyIsFile, same.announced]

theorem setNoBody_announcesMemory_iff :
    (rsp.setNoBody order).AnnouncesMemory ↔ rsp.body = [] := by
  have announced : (rsp.setNoBody order).announcedLength = some (decimal 0) := by
    rw [announcedLength, setNoBody, getHeader_del, if_neg (by decide)]
    exact (getHeader_modify _ _ _).trans (if_pos rfl)
  obtain ⟨body, inMemory⟩ := @setNoBody_body order rsp
  rw [AnnouncesMemory, announced, body, Option.some.injEq]
  constructor
  · intro announces
    have length := congrArg decimalValue (announces inMemory)
    rw [decimalValue_decimal, decimalValue_decimal] at length
    exact List.length_eq_zero_iff.mp length.symm
  · intro empty _
    rw [empty, List.length_nil]

/-- Of all operations only `set_no_body` can break the agreement. -/
theorem apply_announcesMemory_iff {op : ResponseOp} (agrees : rsp.AnnouncesMemory)
    (spares : op.sparesLength = true) :
    (op.apply order rsp).1.AnnouncesMemory ↔ (op = .handler .setNoBody → rsp.body = []) := by
  have kept {next : HttpResponse} (same : next.SameLength rsp) : next.AnnouncesMemory :=
    same.announcesMemory_iff.mpr agrees
  have leaves {call : HandlerCall} (left : call.leavesBody = true) :
      (call.apply order rsp).AnnouncesMemory := kept (HandlerCall.apply_leaves left)
  cases op with
  | handler call =>
      cases call with
      | setCode code => exact iff_of_true (leaves rfl) (by simp)
      | headerOper oper key value =>
          refine iff_of_true (leaves ?_) (by simp)
          cases oper with
          | clear => simp [ResponseOp.sparesLength] at spares
          | _ => simpa [ResponseOp.sparesLength, HandlerCall.leavesBody] using spares
      | setBodyFile path type charset =>
          obtain ⟨-, isFile⟩ := @setBodyFile_body order rsp path type charset
          refine iff_of_true (fun inMemory => ?_) (by simp)
          exact absurd (isFile.symm.trans inMemory) (by simp)
      | setBodyBin data type charset =>
          obtain ⟨body, -⟩ := @setBodyBin_body order rsp data type charset
          refine iff_of_true (fun _ => ?_) (by simp)
          rw [ResponseOp.apply, HandlerCall.apply, body]
          exact (updateContentType_announcedLength type charset).trans
            ((getHeader_modify _ _ _).trans (if_pos rfl))
      | setNoBody =>
          rw [ResponseOp.apply, HandlerCall.apply, setNoBody_announcesMemory_iff]
          exact ⟨fun empty _ => empty, fun empty => empty rfl⟩
  | headerOperMove oper key value =>
      have left : (HandlerCall.headerOper oper key value).leavesBody = true := by
        cases oper with
        | clear => simp [ResponseOp.sparesLength] at spares
        | _ => simpa [ResponseOp.sparesLength, HandlerCall.leavesBody] using spares
      exact iff_of_true (leaves left) (by simp)
  | reset => exact iff_of_true (fun inMemory => Bool.noConfusion inMemory) (by simp)
  | assign other => cases spares
  | getBaseRsp =>
      refine iff_of_true (kept ⟨getBaseRsp_body, getBaseRsp_bodyIsFile, ?_⟩) (by simp)
      exact congrArg (fun fields => fields.headers.lookup (bytes "Content-Length"))
        getBaseRsp_headFields

theorem follow_apply (ops : List (HashOrder Bytes Bytes × ResponseOp)) (rsp : HttpResponse) :
    ∃ texts, System.follow (fun rsp step => some (step.2.apply step.1 rsp)) rsp ops =
      some ((rsp.runOps ops).1, texts) := by
  induction ops generalizing rsp with
  | nil => exact ⟨[], rfl⟩
  | cons step later ih =>
      obtain ⟨texts, ran⟩ := ih (step.2.apply step.1 rsp).1
      exact ⟨_, System.follow_cons.mpr ⟨_, _, texts, rfl, ran, rfl⟩⟩

/-- Along any calls on a response just constructed, the length is right at every point
exactly when `set_no_body` never meets a body. -/
theorem length_announced_iff (order : HashOrder Bytes Bytes) (req : HttpRequest)
    (ops : List (HashOrder Bytes Bytes × ResponseOp))
    (spare : ∀ step ∈ ops, step.2.sparesLength = true) :
    (∀ earlier, earlier <+: ops → ((ofRequest order req).runOps earlier).1.AnnouncesMemory) ↔
      ∀ earlier order', earlier ++ [(order', .handler .setNoBody)] <+: ops →
        ((ofRequest order req).runOps earlier).1.body = [] := by
  have along := @System.follow_keeps_iff _ _ _ (fun rsp step => some (step.2.apply step.1 rsp))
    (fun _ => True) AnnouncesMemory (fun rsp step => step.2 = .handler .setNoBody → rsp.body = []) ops
    (fun {rsp step after text} member _ agrees stepped => by
      have same : (step.2.apply step.1 rsp).1 = after := congrArg Prod.fst (Option.some.inj stepped)
      exact ⟨trivial, same ▸ apply_announcesMemory_iff agrees (spare step member)⟩)
    (ofRequest order req) trivial (fun inMemory => Bool.noConfusion inMemory)
  constructor
  · intro all earlier order' before
    obtain ⟨texts, ran⟩ := follow_apply earlier (ofRequest order req)
    refine along.mp (fun front after texts inside reached => ?_) earlier _ _ texts before ran rfl rfl
    obtain ⟨texts', ran'⟩ := follow_apply front (ofRequest order req)
    cases ran'.symm.trans reached
    exact all front inside
  · intro empty earlier inside
    obtain ⟨texts, ran⟩ := follow_apply earlier (ofRequest order req)
    refine along.mpr (fun front step before texts inside reached _ here => ?_) earlier _ texts inside ran
    obtain ⟨texts', ran'⟩ := follow_apply front (ofRequest order req)
    cases ran'.symm.trans reached
    exact empty front step.1 (here ▸ inside)

/-- A page in the place of the empty body that `set_no_body` announced before. -/
theorem length_announced_of_page :
    ((ofRequest (.front _ _) .fresh).runOps [(.front _ _, .handler .setNoBody),
      (.front _ _, .handler (.setBodyBin (bytes "page") .htmlType []))]).1.AnnouncesMemory :=
  (length_announced_iff _ _ _ (by decide)).mpr (by
    intro earlier order before
    cases earlier with
    | nil => rfl
    | cons step later =>
        obtain ⟨-, behind⟩ := List.cons_prefix_cons.mp before
        have last := behind.mem (List.mem_append_right later List.mem_cons_self)
        simp at last) _ (List.prefix_refl _)

/-- `set_no_body` announces no byte and keeps three. -/
theorem no_body_keeps_body :
    let rsp := ((ofRequest (.front _ _) .fresh).runOps
      [(.front _ _, .handler (.setBodyBin (bytes "abc") .htmlType [])),
        (.front _ _, .handler .setNoBody)]).1
    rsp.bodyIsFile = false ∧ rsp.announcedLength = some (bytes "0") ∧ rsp.body = bytes "abc" ∧
      ¬ rsp.AnnouncesMemory := by
  refine ⟨rfl, rfl, rfl, fun announces => ?_⟩
  exact absurd (announces rfl) (by decide)

end HttpResponse

end LiteWebServer
