import GrpcContract.Contract.Verifier
import GrpcContract.Proofs.Headers
import GrpcContract.Proofs.Methods
import Mathlib

/-!
# Calls that requests describe

A request describes a call where it is well formed, a method is registered at its path, a URI may
have that path, and its body means inputs of the method. Otherwise the first of these that fails
refuses it. The names of a schema never make a path that a URI may not have.
-/

namespace GrpcContract

/-! ### Paths made of names -/

/-- The characters of identifiers, and the dots that join them. -/
def isNameChar (c : Char) : Bool :=
  c.isAlphanum || c == '_' || c == '.'

/-- Whether the names of a method are such as a schema has: identifiers, joined by dots. -/
structure Method.Named (m : Method) : Prop where
  service : m.service.toList.all isNameChar = true
  name : m.name.toList.all isNameChar = true

/-- Whether every method is held under its own key, and has names such as a schema has. -/
structure Registry.Named (r : Registry) : Prop where
  keyed : r.Keyed
  method : ∀ entry ∈ r.entries, entry.2.Named

/-- Whether a character may stand in a path, and does not end it. -/
def Target.Plain (c : Char) : Prop :=
  isPathChar c = true ∧ c ≠ '?' ∧ c ≠ '#'

namespace Target

theorem plain_of_isNameChar {c : Char} (hc : isNameChar c = true) : Plain c := by
  have hne {c' : Char} (hc' : isNameChar c' = false) : c ≠ c' := by
    rintro rfl
    cases hc.symm.trans hc'
  have hspace : ' ' < c := by
    simp only [isNameChar, Char.isAlphanum, Char.isAlpha, Char.isUpper, Char.isLower,
      Char.isDigit, Bool.or_eq_true, Bool.and_eq_true, decide_eq_true_eq, beq_iff_eq,
      UInt32.le_iff_toNat_le, ge_iff_le] at hc
    have hbounds : 'A'.val.toNat = 65 ∧ 'a'.val.toNat = 97 ∧ '0'.val.toNat = 48 := by decide
    rw [Char.lt_def, UInt32.lt_iff_toNat_lt]
    change 32 < c.val.toNat
    rcases hc with (hc | rfl) | rfl
    · omega
    · decide
    · decide
  have hpath : isPathChar c = true := by
    simp [isPathChar, hspace, hne (by decide : isNameChar '<' = false),
      hne (by decide : isNameChar '>' = false), hne (by decide : isNameChar '\x60' = false)]
  exact ⟨hpath, hne (by decide), hne (by decide)⟩

variable {path : String}

theorem takeWhile_of_plain (hpath : ∀ c ∈ path.toList, Plain c) :
    (path.toList.takeWhile fun c => c != '?' && c != '#') = path.toList := by
  rw [List.takeWhile_eq_self_iff]
  intro c hc
  simp [(hpath c hc).2]

theorem isValid_of_plain (hpath : ∀ c ∈ path.toList, Plain c) : isValid path = true := by
  have hrest : (path.toList.dropWhile fun c => c != '?' && c != '#') = [] := by
    rw [List.dropWhile_eq_nil_iff]
    intro c hc
    simp [(hpath c hc).2]
  rw [isValid, List.span_eq_takeWhile_dropWhile, takeWhile_of_plain hpath, hrest]
  simpa using fun c hc => (hpath c hc).1

theorem targetPath_of_plain {key : String} (hpath : ∀ c ∈ ("/" ++ key).toList, Plain c) :
    targetPath ("/" ++ key) = "/" ++ key := by
  have hslash : ("/" ++ key).toList = '/' :: key.toList := by simp
  unfold targetPath
  simp only [hslash]
  rw [← hslash, takeWhile_of_plain hpath, String.ofList_toList]

end Target

theorem Method.Named.plain {m : Method} (hm : m.Named) : ∀ c ∈ m.path.toList, Target.Plain c := by
  have hslash : Target.Plain '/' := ⟨by decide, by decide, by decide⟩
  intro c hc
  have hmem : c = '/' ∨ c ∈ m.service.toList ∨ c ∈ m.name.toList := by
    simpa [path, key, or_left_comm] using hc
  rcases hmem with rfl | hservice | hname
  · exact hslash
  · exact Target.plain_of_isNameChar (List.all_eq_true.mp hm.service c hservice)
  · exact Target.plain_of_isNameChar (List.all_eq_true.mp hm.name c hname)

namespace Registry

/-- The path of every method that a registry holds is one that a URI may have. -/
theorem Named.plain {r : Registry} (hr : r.Named) {key : String} {m : Method}
    (hkey : r.get? key = some m) : ∀ c ∈ ("/" ++ key).toList, Target.Plain c := by
  obtain ⟨before, after, hentries, -⟩ := List.lookup_eq_some_iff.mp hkey
  rw [hr.keyed.key_of_get? hkey]
  exact (hr.method (key, m) (by simp [hentries])).plain

end Registry

/-! ### Requests that are well formed -/

/-- Whether a request is one of a call, with a path and a body: a POST with no content type but
that of calls, with nothing that no call can have, and with a path that begins with a slash. -/
structure ContractRequest.WellFormed (r : ContractRequest) (path body : String) : Prop where
  verb : ∀ verb, r.verb? = some verb → verb = "POST"
  contentType : ∀ value, r.headers.get? HeaderName.contentType = some value →
    ∃ text, headerText? value = some text ∧ isGrpcContentType text = true
  query : r.query = []
  cookies : r.cookies = []
  slash : ∃ key, path = "/" ++ key
  path : r.path? = some path
  body : r.body? = some body

namespace ContractRequest

variable {r : ContractRequest} {path body : String}

theorem checkForm_eq_ok_iff : r.checkForm = .ok () ↔
    (∀ verb, r.verb? = some verb → verb = "POST") ∧
      (∀ value, r.headers.get? HeaderName.contentType = some value →
        ∃ text, headerText? value = some text ∧ isGrpcContentType text = true) ∧
      r.query = [] ∧ r.cookies = [] := by
  unfold checkForm
  simp only [bind, Except.bind, throw, throwThe, MonadExceptOf.throw, pure, Except.pure]
  cases hverb : r.verb? <;> cases hcontentType : r.headers.get? HeaderName.contentType <;>
    simp only [Except.guarded_eq_ok_iff] <;> simp [Option.any_eq_true]

theorem checkPath_eq_ok_iff :
    r.checkPath = .ok path ↔ (∃ key, path = "/" ++ key) ∧ r.path? = some path := by
  unfold checkPath
  constructor
  · intro hcheck
    repeat' split at hcheck
    · cases hcheck
    · rename_i hpath _ cs hchars
      obtain rfl := Except.ok.inj hcheck
      refine ⟨⟨String.ofList cs, ?_⟩, (Option.filter_eq_some_iff.mp hpath).1⟩
      rw [← String.toList_inj, hchars]
      simp
    · cases hcheck
  · rintro ⟨⟨key, rfl⟩, hpath⟩
    have hchars : ("/" ++ key).toList = '/' :: key.toList := by simp
    have hsome : r.path?.filter (!·.isEmpty) = some ("/" ++ key) := by
      simp [hpath, Option.filter_some]
    rw [hsome]
    simp only [hchars]

theorem validate_eq_ok_iff : r.validate = .ok (path, body) ↔ r.WellFormed path body := by
  constructor
  · intro hvalidate
    obtain ⟨_, hform, hvalidate⟩ := Except.ok_of_bind hvalidate
    obtain ⟨path', hpath, hvalidate⟩ := Except.ok_of_bind hvalidate
    split at hvalidate
    · rename_i hbody
      obtain ⟨rfl, rfl⟩ := Prod.mk.inj (Except.ok.inj hvalidate)
      obtain ⟨hverb, hcontentType, hquery, hcookies⟩ := checkForm_eq_ok_iff.mp hform
      obtain ⟨hslash, hpath⟩ := checkPath_eq_ok_iff.mp hpath
      exact ⟨hverb, hcontentType, hquery, hcookies, hslash, hpath, hbody⟩
    · cases hvalidate
  · intro hr
    have hform := checkForm_eq_ok_iff.mpr ⟨hr.verb, hr.contentType, hr.query, hr.cookies⟩
    have hpath := checkPath_eq_ok_iff.mpr ⟨hr.slash, hr.path⟩
    simp only [validate, hform, bind, Except.bind, hpath, hr.body]
    rfl

theorem argument_of_checkForm {failure : Failure} (hcheck : r.checkForm = .error failure) :
    ∃ message, failure = .argument message := by
  unfold checkForm at hcheck
  simp only [bind, Except.bind, throw, throwThe, MonadExceptOf.throw, pure, Except.pure] at hcheck
  repeat' split at hcheck
  all_goals
    cases hcheck
    try exact ⟨_, rfl⟩

theorem argument_of_checkPath {failure : Failure} (hcheck : r.checkPath = .error failure) :
    ∃ message, failure = .argument message := by
  unfold checkPath at hcheck
  repeat' split at hcheck
  all_goals
    cases hcheck
    try exact ⟨_, rfl⟩

theorem argument_of_validate {failure : Failure} (hvalidate : r.validate = .error failure) :
    ∃ message, failure = .argument message := by
  unfold validate at hvalidate
  rcases Except.error_of_bind hvalidate with hform | ⟨-, -, hvalidate⟩
  · exact argument_of_checkForm hform
  rcases Except.error_of_bind hvalidate with hpath | ⟨path, -, hvalidate⟩
  · exact argument_of_checkPath hpath
  split at hvalidate
  · cases hvalidate
  · exact ⟨_, (Except.error.inj hvalidate).symm⟩

theorem not_wellFormed_of_validate {failure : Failure} (hvalidate : r.validate = .error failure)
    (path body : String) : ¬ r.WellFormed path body := by
  intro hform
  cases hvalidate.symm.trans (validate_eq_ok_iff.mpr hform)

/-- A POST of a text to a path that begins with a slash is well formed. -/
theorem wellFormed_grpc (key body : String) :
    (grpc ("/" ++ key) body).WellFormed ("/" ++ key) body where
  verb verb hverb := (Option.some.inj hverb).symm
  contentType value hvalue := by
    have hgrpc : headerText? (headerValue grpcContentType) = some grpcContentType := by cbv
    have hsome : (grpc ("/" ++ key) body).headers.get? HeaderName.contentType =
        some (headerValue grpcContentType) := by
      simp [grpc]
    rw [← Option.some.inj (hsome.symm.trans hvalue)]
    exact ⟨grpcContentType, hgrpc, by decide⟩
  query := rfl
  cookies := rfl
  slash := ⟨key, rfl⟩
  path := rfl
  body := rfl

end ContractRequest

/-! ### Bodies that mean inputs -/

namespace Codec

variable {c : Codec} {t : MessageType} {failure : Failure}

theorem parse_of_decodeJson {j : Json} (hread : c.decodeJson t j = .error failure) :
    ∃ message, failure = .parse message := by
  unfold decodeJson at hread
  cases hjson : Message.ofJson c.options c.schema t j with
  | error why =>
      rw [hjson] at hread
      exact ⟨_, (Except.error.inj hread).symm⟩
  | ok m =>
      rw [hjson] at hread
      cases hread

theorem parse_of_decode {text : String} (hread : c.decode t text = .error failure) :
    ∃ message, failure = .parse message := by
  unfold decode at hread
  split at hread
  · exact parse_of_decodeJson hread
  · exact ⟨_, (Except.error.inj hread).symm⟩

theorem parse_of_mapM_decodeJson {items : List Json}
    (hread : items.mapM (fun item => c.decodeJson t (clientSide item)) = .error failure) :
    ∃ message, failure = .parse message := by
  induction items with
  | nil => cases hread
  | cons item items ih =>
      rw [List.mapM_cons] at hread
      rcases Except.error_of_bind hread with hitem | ⟨m, -, hread⟩
      · exact parse_of_decodeJson hitem
      rcases Except.error_of_bind hread with hitems | ⟨ms, -, hread⟩
      · exact ih hitems
      · cases hread

theorem parse_of_decodeMany {text : String} (hread : c.decodeMany t text = .error failure) :
    ∃ message, failure = .parse message := by
  unfold decodeMany at hread
  split at hread
  · cases hread
  split at hread
  · exact ⟨_, (Except.error.inj hread).symm⟩
  · exact parse_of_mapM_decodeJson hread
  · rcases Except.error_of_bind hread with hone | ⟨m, -, hread⟩
    · exact parse_of_decodeJson hone
    · cases hread
  · exact ⟨_, (Except.error.inj hread).symm⟩

end Codec

theorem Method.isClientStreaming_shape (m : Method) :
    m.shape.isClientStreaming = m.clientStreaming := by
  unfold shape
  split <;> simp [CallShape.isClientStreaming, *]

theorem Method.isServerStreaming_shape (m : Method) :
    m.shape.isServerStreaming = m.serverStreaming := by
  unfold shape
  split <;> simp [CallShape.isServerStreaming, *]

namespace Verifier

/-- Whether a body means certain inputs of a method: all of a sequence for a client that streams,
and else one message. -/
def Reads (v : Verifier) (m : Method) (body : String) (inputs : List Message) : Prop :=
  if m.clientStreaming then
    v.codec.decodeMany (v.codec.schema.messageType m.input) body = .ok inputs
  else
    ∃ input, v.codec.decode (v.codec.schema.messageType m.input) body = .ok input ∧
      inputs = [input]

variable {v : Verifier} {m : Method} {body : String}

theorem inputs_of_single (hone : m.clientStreaming = false) :
    v.inputs m body = (v.codec.decode (v.codec.schema.messageType m.input) body).map ([·]) := by
  simp only [inputs, m.isClientStreaming_shape, hone, inputType]
  cases v.codec.decode (v.codec.schema.messageType m.input) body <;> rfl

theorem inputs_of_stream (hmany : m.clientStreaming = true) :
    v.inputs m body = v.codec.decodeMany (v.codec.schema.messageType m.input) body := by
  simp only [inputs, m.isClientStreaming_shape, hmany, if_true, inputType]

theorem inputs_eq_ok_iff {inputs : List Message} :
    v.inputs m body = .ok inputs ↔ v.Reads m body inputs := by
  cases hshape : m.clientStreaming with
  | true => simp [inputs_of_stream hshape, Reads, hshape]
  | false =>
      rw [inputs_of_single hshape, Reads, hshape]
      cases v.codec.decode (v.codec.schema.messageType m.input) body <;>
        simp [Except.map, eq_comm]

/-! ### Calls -/

/-- Why no call can be made of a request: it is not well formed, or else no method is held at its
path, or else a URI may not have the path, or else its body does not mean the input, or the
inputs, that the method takes. -/
inductive Refuses (v : Verifier) (r : ContractRequest) : Failure → Prop
  | form {message : String} (hform : ∀ path body, ¬ r.WellFormed path body)
      (hmessage : r.validate = .error (.argument message)) : Refuses v r (.argument message)
  | path {key body : String} (hform : r.WellFormed ("/" ++ key) body)
      (hkey : v.registry.get? key = none) :
      Refuses v r (.state ("no gRPC method related to the given path: " ++ ("/" ++ key)))
  | target {key body : String} {m : Method} (hform : r.WellFormed ("/" ++ key) body)
      (hkey : v.registry.get? key = some m) (htarget : Target.isValid ("/" ++ key) = false) :
      Refuses v r (.argument
        ("invalid request path " ++ Text.quote ("/" ++ key) ++ ": invalid uri character"))
  | input {key body message : String} {m : Method} (hform : r.WellFormed ("/" ++ key) body)
      (hkey : v.registry.get? key = some m) (htarget : Target.isValid ("/" ++ key) = true)
      (hone : m.clientStreaming = false)
      (hbody : v.codec.decode (v.codec.schema.messageType m.input) body =
        .error (.parse message)) : Refuses v r (.parse message)
  | inputs {key body message : String} {m : Method} (hform : r.WellFormed ("/" ++ key) body)
      (hkey : v.registry.get? key = some m) (htarget : Target.isValid ("/" ++ key) = true)
      (hmany : m.clientStreaming = true)
      (hbody : v.codec.decodeMany (v.codec.schema.messageType m.input) body =
        .error (.parse message)) : Refuses v r (.parse message)

/-- Whether a request describes a call: of the method held at its path, which a URI may have, with
the inputs that its body means. -/
def Describes (v : Verifier) (r : ContractRequest) (c : PlannedCall) : Prop :=
  ∃ key body, r.WellFormed ("/" ++ key) body ∧ v.registry.get? key = some c.method ∧
    Target.isValid ("/" ++ key) = true ∧ c.path = targetPath ("/" ++ key) ∧
    v.Reads c.method body c.inputs

section Plan

variable {r : ContractRequest} {key : String}

theorem plan_of_none (hform : r.WellFormed ("/" ++ key) body) (hkey : v.registry.get? key = none) :
    v.plan r =
      .error (.state ("no gRPC method related to the given path: " ++ ("/" ++ key))) := by
  simp only [plan, ContractRequest.validate_eq_ok_iff.mpr hform, bind, Except.bind,
    Registry.resolve_slash_of_none hkey]

theorem plan_of_some (hform : r.WellFormed ("/" ++ key) body)
    (hkey : v.registry.get? key = some m) :
    v.plan r = (callPath ("/" ++ key)).bind fun path =>
      (v.inputs m body).map fun inputs => { method := m, path, inputs } := by
  simp only [plan, ContractRequest.validate_eq_ok_iff.mpr hform, bind, Except.bind,
    Registry.resolve_slash_eq_ok_iff.mpr hkey]
  cases callPath ("/" ++ key) with
  | error failure => rfl
  | ok path => cases v.inputs m body <;> rfl

theorem plan_of_not_isValid (hform : r.WellFormed ("/" ++ key) body)
    (hkey : v.registry.get? key = some m) (htarget : Target.isValid ("/" ++ key) = false) :
    v.plan r = .error (.argument
      ("invalid request path " ++ Text.quote ("/" ++ key) ++ ": invalid uri character")) := by
  rw [plan_of_some hform hkey, callPath, if_neg (by simp [htarget])]
  rfl

theorem plan_of_isValid (hform : r.WellFormed ("/" ++ key) body)
    (hkey : v.registry.get? key = some m) (htarget : Target.isValid ("/" ++ key) = true) :
    v.plan r = (v.inputs m body).map fun inputs =>
      { method := m, path := targetPath ("/" ++ key), inputs } := by
  rw [plan_of_some hform hkey, callPath, if_pos htarget]
  rfl

theorem plan_of_refuses {failure : Failure} (hrefuses : v.Refuses r failure) :
    v.plan r = .error failure := by
  cases hrefuses with
  | form hform hmessage => simp only [plan, hmessage, bind, Except.bind]
  | path hform hkey => exact plan_of_none hform hkey
  | target hform hkey htarget => exact plan_of_not_isValid hform hkey htarget
  | input hform hkey htarget hone hbody =>
      rw [plan_of_isValid hform hkey htarget, inputs_of_single hone, hbody]
      rfl
  | inputs hform hkey htarget hmany hbody =>
      rw [plan_of_isValid hform hkey htarget, inputs_of_stream hmany, hbody]
      rfl

theorem plan_of_describes {c : PlannedCall} (hdescribes : v.Describes r c) : v.plan r = .ok c := by
  obtain ⟨method, path, inputs⟩ := c
  obtain ⟨key, body, hform, hkey, htarget, rfl, hread⟩ := hdescribes
  rw [plan_of_isValid hform hkey htarget, inputs_eq_ok_iff.mpr hread]
  rfl

/-- A body that means no inputs of a method is refused. -/
theorem refuses_or_reads (hform : r.WellFormed ("/" ++ key) body)
    (hkey : v.registry.get? key = some m) (htarget : Target.isValid ("/" ++ key) = true) :
    (∃ failure, v.Refuses r failure) ∨ ∃ inputs, v.Reads m body inputs := by
  cases hshape : m.clientStreaming with
  | true =>
      cases hbody : v.codec.decodeMany (v.codec.schema.messageType m.input) body with
      | ok inputs => exact .inr ⟨inputs, by simp [Reads, hshape, hbody]⟩
      | error failure =>
          obtain ⟨message, rfl⟩ := Codec.parse_of_decodeMany hbody
          exact .inl ⟨_, .inputs hform hkey htarget hshape hbody⟩
  | false =>
      cases hbody : v.codec.decode (v.codec.schema.messageType m.input) body with
      | ok input => exact .inr ⟨[input], by simp [Reads, hshape, hbody]⟩
      | error failure =>
          obtain ⟨message, rfl⟩ := Codec.parse_of_decode hbody
          exact .inl ⟨_, .input hform hkey htarget hshape hbody⟩

/-- Every request is refused, or describes a call. -/
theorem refuses_or_describes (v : Verifier) (r : ContractRequest) :
    (∃ failure, v.Refuses r failure) ∨ ∃ c, v.Describes r c := by
  cases hvalidate : r.validate with
  | error failure =>
      obtain ⟨message, rfl⟩ := ContractRequest.argument_of_validate hvalidate
      exact .inl ⟨_, .form (ContractRequest.not_wellFormed_of_validate hvalidate) hvalidate⟩
  | ok parts =>
      obtain ⟨path, body⟩ := parts
      have hform := ContractRequest.validate_eq_ok_iff.mp hvalidate
      obtain ⟨key, rfl⟩ := hform.slash
      cases hkey : v.registry.get? key with
      | none => exact .inl ⟨_, .path hform hkey⟩
      | some m =>
          cases htarget : Target.isValid ("/" ++ key) with
          | false => exact .inl ⟨_, .target hform hkey htarget⟩
          | true =>
              refine (refuses_or_reads hform hkey htarget).imp_right fun ⟨inputs, hread⟩ => ?_
              exact ⟨⟨m, _, inputs⟩, key, body, hform, hkey, htarget, rfl, hread⟩

theorem plan_eq_ok_iff {c : PlannedCall} : v.plan r = .ok c ↔ v.Describes r c := by
  refine ⟨fun hplan => ?_, plan_of_describes⟩
  rcases refuses_or_describes v r with ⟨failure, hrefuses⟩ | ⟨c', hdescribes⟩
  · cases hplan.symm.trans (plan_of_refuses hrefuses)
  · obtain rfl := Except.ok.inj (hplan.symm.trans (plan_of_describes hdescribes))
    exact hdescribes

end Plan

end Verifier

end GrpcContract
