import Provisioning.Client.JsonText
import Provisioning.Lib.Lines
import Provisioning.Lib.Program

/-!
# Search results as a stream

`makeNdjsonHandler` of `src/http/objectsRoutes.ts` writes one line for each object, and `search` of
`clients/node/src/objects.js` reads them. The client decodes every chunk of bytes on its own.
-/

namespace Provisioning

open Lib Lib.Utf8

/-! ## The server -/

/-- What the handler asks of `isClientGone` and of the sink. -/
inductive SinkIo where
  | isClientGone
  | writableEnded
  | write (text : String)
  | drain

def SinkIo.Answer : SinkIo → Type
  | .isClientGone | .writableEnded | .write _ => Bool
  | .drain => Unit

def Sink : Signature := ⟨SinkIo, SinkIo.Answer⟩

def onSink (e : SinkIo) : Prog Sink e.Answer := @Prog.ask Sink e

/-- The `ResultsHandler` that `makeNdjsonHandler` builds. -/
def makeNdjsonHandler (obj : Json) : Prog Sink Bool :=
  (onSink .isClientGone).bind fun (gone : Bool) =>
    if gone then .pure false
    else (onSink .writableEnded).bind fun (ended : Bool) =>
      if ended then .pure false
      else (onSink (.write (obj.stringify ++ "\n"))).bind fun (ok : Bool) =>
        (if ok then .pure () else onSink .drain).bind fun _ =>
          (onSink .isClientGone).bind fun (gone : Bool) =>
            if gone then .pure false
            else (onSink .writableEnded).bind fun (ended : Bool) => .pure (!ended)

/-- The handler is given the objects in order. -/
def handled : List Json → Prog Sink Unit
  | [] => .pure ()
  | obj :: rest => (makeNdjsonHandler obj).bind fun _ => handled rest

/-- What the handler has asked, and heard. -/
abbrev SinkHeard : Type := List ((e : Sink.Effect) × Sink.Answer e)

/-- The client is there, and the response is open. -/
def clientPresent : (e : SinkIo) → e.Answer → Prop
  | .isClientGone, gone => gone = false
  | .writableEnded, ended => ended = false
  | .write _, _ | .drain, _ => True

def SinkIo.written : SinkIo → List Char
  | .write text => text.toList
  | _ => []

/-- The bytes that are written to the response. -/
def bytesOf (heard : SinkHeard) : List UInt8 := encode (heard.flatMap fun x => SinkIo.written x.1)

/-- The text of a line. -/
def Json.line (obj : Json) : List Char := obj.stringify.toList ++ ['\n']

/-! ## The client -/

/-- What a generator has yielded, and whether it has thrown. -/
structure Yielded where
  values : List Json
  thrown : Bool

def Yielded.nothing : Yielded := ⟨[], false⟩

/-- The second part comes after the first one. -/
def Yielded.andThen (first second : Yielded) : Yielded :=
  if first.thrown then first else ⟨first.values ++ second.values, second.thrown⟩

section Client

variable (parse : String → Option Json)

/-- `yield JSON.parse(line)`. `parse` is `JSON.parse`, with `none` when it throws. -/
def yieldParsed (line : List Char) : Yielded :=
  match parse (String.ofList line) with
  | some j => ⟨[j], false⟩
  | none => ⟨[], true⟩

/-- The loop over the lines of the buffer. -/
def yieldLines : List (List Char) → Yielded
  | [] => .nothing
  | line :: lines => (if line = [] then .nothing else yieldParsed parse line).andThen (yieldLines lines)

/-- A final line with no newline. -/
def yieldLast (buffer : List Char) : Yielded :=
  if trim (String.ofList buffer) = "" then .nothing else yieldParsed parse buffer

/-- The loop over the chunks. -/
def searchFrom (buffer : List Char) : List (List UInt8) → Yielded
  | [] => yieldLast parse buffer
  | chunk :: chunks =>
    let parts := Lines.cut '\n' (buffer ++ decode chunk)
    (yieldLines parse parts.1).andThen (searchFrom parts.2 chunks)

/-- `search`, from a response that is `ok`. -/
def search (chunks : List (List UInt8)) : Yielded := searchFrom parse [] chunks

end Client

/-! ## What is written -/

/-- What a client that is there has been sent. -/
def sending : Monitor Sink (List Char) where
  allows _ _ := True
  expects := clientPresent
  next sent e _ := sent ++ e.written

theorem recall_sending (heard : SinkHeard) (sent : List Char) :
    sending.recall sent heard = sent ++ heard.flatMap fun x => SinkIo.written x.1 := by
  unfold Monitor.recall
  induction heard generalizing sent with
  | nil => simp
  | cons x rest ih =>
    rw [List.foldl_cons, ih, List.flatMap_cons, ← List.append_assoc]
    rfl

theorem handler_sends (obj : Json) (sent : List Char) :
    Prog.Safe sending (fun sent' _ => sent' = sent ++ obj.line) sent (makeNdjsonHandler obj) := by
  have hline : (obj.stringify ++ "\n").toList = obj.line := by
    rw [String.toList_append]
    rfl
  have closing (sent' : List Char) (hsent : sent' = sent ++ obj.line) :
      Prog.Safe sending (fun sent' _ => sent' = sent ++ obj.line) sent'
        ((onSink .isClientGone).bind fun (gone : Bool) =>
          if gone then .pure false else (onSink .writableEnded).bind fun (ended : Bool) => .pure (!ended)) := by
    refine ⟨trivial, fun gone hgone => ?_⟩
    obtain rfl : gone = false := hgone
    refine ⟨trivial, fun ended _ => ?_⟩
    simp only [sending, SinkIo.written, List.append_nil]
    exact hsent
  refine ⟨trivial, fun gone hgone => ?_⟩
  obtain rfl : gone = false := hgone
  refine ⟨trivial, fun ended hended => ?_⟩
  obtain rfl : ended = false := hended
  refine ⟨trivial, fun ok _ => ?_⟩
  cases ok with
  | true =>
    apply closing
    simp [sending, SinkIo.written, hline]
  | false =>
    refine ⟨trivial, fun _ _ => ?_⟩
    apply closing
    simp [sending, SinkIo.written, hline]

theorem handled_sends (objs : List Json) (sent : List Char) :
    Prog.Safe sending (fun sent' _ => sent' = sent ++ objs.flatMap Json.line) sent (handled objs) := by
  induction objs generalizing sent with
  | nil =>
    rw [List.flatMap_nil, List.append_nil]
    exact rfl
  | cons obj rest ih =>
    refine Prog.Safe.bind (handler_sends obj sent) ?_
    rintro sent' _ rfl
    rw [List.flatMap_cons, ← List.append_assoc]
    exact ih _

theorem bytesOf_handled {objs : List Json} {heard : SinkHeard} (h : (handled objs).Reaches heard (.pure ()))
    (present : ∀ x ∈ heard, clientPresent x.1 x.2) : bytesOf heard = encode (objs.flatMap Json.line) := by
  have hsent : sending.recall [] heard = [] ++ objs.flatMap Json.line := (handled_sends objs []).reaches h present
  rw [recall_sending, List.nil_append, List.nil_append] at hsent
  unfold bytesOf
  rw [hsent]

/-! ## What is read -/

namespace Yielded

variable {a b c : Yielded}

@[simp] theorem nothing_andThen : nothing.andThen a = a := rfl

@[simp] theorem andThen_nothing : a.andThen nothing = a := by
  obtain ⟨values, thrown⟩ := a
  cases thrown <;> simp [andThen, nothing]

theorem andThen_assoc : (a.andThen b).andThen c = a.andThen (b.andThen c) := by
  unfold andThen
  by_cases ha : a.thrown
  · simp [ha]
  · by_cases hb : b.thrown
    · simp [ha, hb]
    · simp [ha, hb, List.append_assoc]

end Yielded

variable {parse : String → Option Json}

theorem yieldLines_append (lines more : List (List Char)) :
    yieldLines parse (lines ++ more) = (yieldLines parse lines).andThen (yieldLines parse more) := by
  induction lines with
  | nil => rfl
  | cons line lines ih => rw [List.cons_append, yieldLines, yieldLines, ih, Yielded.andThen_assoc]

theorem searchFrom_eq {buffer : List Char} (hbuffer : '\n' ∉ buffer) (chunks : List (List UInt8)) :
    searchFrom parse buffer chunks =
      (yieldLines parse (Lines.cut '\n' (buffer ++ chunks.flatMap decode)).1).andThen
        (yieldLast parse (Lines.cut '\n' (buffer ++ chunks.flatMap decode)).2) := by
  induction chunks generalizing buffer with
  | nil =>
    rw [List.flatMap_nil, List.append_nil, Lines.cut_of_not_mem hbuffer, yieldLines, Yielded.nothing_andThen,
      searchFrom]
  | cons chunk chunks ih =>
    rw [searchFrom, ih (Lines.not_mem_last _), List.flatMap_cons, ← List.append_assoc, Lines.cut_append (buffer ++ _),
      yieldLines_append, Yielded.andThen_assoc]

theorem yieldLines_parsed {lines : List (List Char)} {values : List Json}
    (h : List.Forall₂ (fun line j => line ≠ [] ∧ parse (String.ofList line) = some j) lines values) :
    yieldLines parse lines = ⟨values, false⟩ := by
  induction h with
  | nil => rfl
  | cons hline _ ih =>
    rw [yieldLines, if_neg hline.1, ih, yieldParsed, hline.2]
    rfl

/-! ## Lost characters -/

/-- A JSON-serialisable object: its numbers are numbers, and no key of it comes twice. -/
structure Serialisable where
  json : Json
  decimal : json.decimal
  distinct : json.value = json

/-- The value has the text of the object, with characters lost. -/
structure Serialisable.Loses (o : Serialisable) (j : Json) : Prop where
  garbled : o.json.Garbled j
  damaged : Damaged o.json.stringify.toList j.stringify.toList

theorem Serialisable.Loses.newline {o : Serialisable} {j : Json} (h : o.Loses j) : '\n' ∉ j.stringify.toList := by
  intro hmem
  rcases h.damaged.mem hmem with hold | hnew
  · exact Json.newline_stringify o.json o.decimal hold
  · exact absurd hnew (by decide)

theorem Serialisable.Loses.ne_nil {o : Serialisable} {j : Json} (h : o.Loses j) : j.stringify.toList ≠ [] := by
  have hold := List.length_pos_iff.2 (Json.stringify_ne_nil o.decimal)
  have hle := h.damaged.length_le
  exact List.length_pos_iff.1 (by omega)

theorem lines_of_damaged {objs : List Serialisable} {out : List Char}
    (h : Damaged ((objs.map Serialisable.json).flatMap Json.line) out) :
    ∃ garbled, List.Forall₂ Serialisable.Loses objs garbled ∧ out = garbled.flatMap Json.line := by
  induction objs generalizing out with
  | nil =>
    rw [List.map_nil, List.flatMap_nil] at h
    exact ⟨[], .nil, h.ascii (by decide)⟩
  | cons o objs ih =>
    rw [List.map_cons, List.flatMap_cons, Json.line, List.append_assoc] at h
    obtain ⟨front, back, rfl, hfront, hback⟩ := h.of_append
    obtain ⟨more, rfl, hmore⟩ := hback.after_ascii (by decide)
    obtain ⟨j, hj, rfl⟩ := Json.garbled_of_damaged o.json o.decimal front hfront
    obtain ⟨garbled, hgarbled, rfl⟩ := ih hmore
    refine ⟨j :: garbled, .cons ⟨hj, hfront⟩ hgarbled, ?_⟩
    rw [List.flatMap_cons, Json.line, List.append_assoc]

theorem yieldLast_nil : yieldLast parse [] = .nothing := by
  unfold yieldLast
  rw [if_pos (by decide)]

theorem search_lines {objs : List Serialisable} {garbled : List Json} {chunks : List (List UInt8)}
    (reads : ∀ o ∈ objs, ∀ j, o.json.Garbled j → parse j.stringify = some j.value)
    (h : List.Forall₂ Serialisable.Loses objs garbled) (decoded : chunks.flatMap decode = garbled.flatMap Json.line) :
    search parse chunks = ⟨garbled.map Json.value, false⟩ := by
  have hparts : (∀ line ∈ garbled.map fun j => j.stringify.toList, '\n' ∉ line) ∧
      List.Forall₂ (fun line j => line ≠ [] ∧ parse (String.ofList line) = some j)
        (garbled.map fun j => j.stringify.toList) (garbled.map Json.value) := by
    clear decoded
    induction h with
    | nil => exact ⟨by simp, .nil⟩
    | cons hj _ ih =>
      obtain ⟨hplain, hparsed⟩ := ih fun o ho => reads o (List.mem_cons_of_mem _ ho)
      refine ⟨List.forall_mem_cons.2 ⟨hj.newline, hplain⟩, .cons ⟨hj.ne_nil, ?_⟩ hparsed⟩
      rw [String.ofList_toList]
      exact reads _ List.mem_cons_self _ hj.garbled
  have hlines : garbled.flatMap Json.line =
      (garbled.map fun j => j.stringify.toList).flatMap fun line => line ++ ['\n'] := by
    rw [List.flatMap_map]
    rfl
  unfold search
  rw [searchFrom_eq (by simp), List.nil_append, decoded, hlines, Lines.cut_lines hparts.1, yieldLines_parsed hparts.2,
    yieldLast_nil, Yielded.andThen_nothing]

theorem loses_refl (objs : List Serialisable) : List.Forall₂ Serialisable.Loses objs (objs.map Serialisable.json) := by
  rw [List.forall₂_map_right_iff]
  exact List.forall₂_same.2 fun o _ => ⟨Json.garbled_refl o.json, Damaged.refl _⟩

theorem value_json (objs : List Serialisable) :
    (objs.map Serialisable.json).map Json.value = objs.map Serialisable.json := by
  rw [List.map_map]
  exact List.map_congr_left fun o _ => o.distinct

theorem eq_of_value {objs : List Serialisable} {garbled : List Json} (h : List.Forall₂ Serialisable.Loses objs garbled)
    (hvalue : garbled.map Json.value = objs.map Serialisable.json) : garbled = objs.map Serialisable.json := by
  induction h with
  | nil => rfl
  | cons hj _ ih =>
    rw [List.map_cons, List.map_cons, List.cons.injEq] at hvalue
    rw [List.map_cons, Json.eq_of_garbled _ _ hj.garbled hvalue.1, ih hvalue.2]

/-! ## The result -/

/-- **Search results come through** exactly when no chunk ends within a character. `parse` reads a text that
`JSON.stringify` prints as the value that it denotes, also when characters are lost from its strings. -/
theorem search_iff_whole (parse : String → Option Json) (objs : List Serialisable) (heard : SinkHeard)
    (chunks : List (List UInt8)) (written : (handled (objs.map Serialisable.json)).Reaches heard (.pure ()))
    (present : ∀ x ∈ heard, clientPresent x.1 x.2) (delivered : chunks.flatten = bytesOf heard)
    (reads : ∀ o ∈ objs, ∀ j, o.json.Garbled j → parse j.stringify = some j.value) :
    search parse chunks = ⟨objs.map Serialisable.json, false⟩ ↔ ∀ chunk ∈ chunks, Whole chunk := by
  rw [bytesOf_handled written present] at delivered
  obtain ⟨out, hout, hdamaged, hwhole⟩ := decode_pieces [] (by simp) delivered
  obtain ⟨garbled, hgarbled, rfl⟩ := lines_of_damaged hdamaged
  rw [List.length_nil, List.replicate_zero, List.nil_append] at hout
  constructor
  · intro h
    rw [search_lines reads hgarbled hout] at h
    have hsame := eq_of_value hgarbled (Yielded.mk.inj h).1
    refine (hwhole rfl).resolve_right fun hlt => ?_
    rw [hsame] at hlt
    exact absurd hlt (lt_irrefl _)
  · intro whole
    have hdecoded : chunks.flatMap decode = (objs.map Serialisable.json).flatMap Json.line := by
      apply encode_injective
      rw [decode_whole whole, delivered]
    rw [search_lines reads (loses_refl objs) hdecoded, value_json]

/-! ## A character between two chunks -/

def named (name : String) : Json := .obj [("name", .str name)]

/-- `JSON.parse`, on objects with a name that needs no escape. -/
def parseNamed (text : String) : Option Json :=
  let name := String.ofList ((text.toList.drop 9).dropLast.dropLast)
  if text = (named name).stringify then some (named name) else none

theorem parseNamed_stringify {name : String} (wide : ∀ c ∈ name.toList, 0x80 ≤ c.toNat) :
    parseNamed (named name).stringify = some (named name) := by
  have hescaped : name.toList.flatMap Json.escaped = name.toList := by
    rw [List.flatMap_congr fun c hc => Json.escaped_wide (wide c hc), List.flatMap_singleton']
  have htext : (named name).stringify.toList = "\x7b\"name\":\"".toList ++ (name.toList ++ ['"', '\x7d']) := by
    simp [named, Json.stringify, Json.stringifyFields, Json.toList_quote, hescaped]
    rfl
  have hname : String.ofList (((named name).stringify.toList.drop 9).dropLast.dropLast) = name := by
    rw [htext]
    simp
  unfold parseNamed
  simp only [hname, if_true]

def accented : Serialisable := ⟨named "é", by decide, rfl⟩

theorem parseNamed_accented (j : Json) (h : (named "é").Garbled j) : parseNamed j.stringify = some j.value := by
  simp only [named, Json.Garbled, Json.GarbledFields] at h
  obtain ⟨_, rfl, key, _, _, rfl, hkey, ⟨name, rfl, hname⟩, rfl⟩ := h
  have hplain : key = "name" := String.toList_inj.1 (hkey.ascii (by decide))
  subst hplain
  refine parseNamed_stringify fun c hc => ?_
  rcases hname.mem hc with hc | rfl
  · rw [List.mem_singleton.1 hc]
    decide
  · decide

/-- What the handler hears when it writes the object. -/
def heardOnce (obj : Json) : SinkHeard :=
  [⟨.isClientGone, false⟩, ⟨.writableEnded, false⟩, ⟨.write (obj.stringify ++ "\n"), true⟩, ⟨.isClientGone, false⟩,
    ⟨.writableEnded, false⟩]

theorem reaches_heardOnce (obj : Json) : (handled [obj]).Reaches (heardOnce obj) (.pure ()) := by
  unfold handled heardOnce makeNdjsonHandler onSink Prog.ask
  iterate 5 apply Prog.Reaches.answer
  exact .start _

theorem present_heardOnce (obj : Json) : ∀ x ∈ heardOnce obj, clientPresent x.1 x.2 := by
  simp only [heardOnce, List.forall_mem_cons]
  exact ⟨rfl, rfl, trivial, rfl, rfl, by simp⟩

/-- The object comes in two chunks, each of them with whole characters. -/
theorem search_iff_whole_accented :
    search parseNamed
      [[0x7B, 0x22, 0x6E, 0x61], [0x6D, 0x65, 0x22, 0x3A, 0x22, 0xC3, 0xA9, 0x22, 0x7D, 0x0A]] = ⟨[named "é"], false⟩ :=
  (search_iff_whole parseNamed [accented] (heardOnce (named "é"))
    [[0x7B, 0x22, 0x6E, 0x61], [0x6D, 0x65, 0x22, 0x3A, 0x22, 0xC3, 0xA9, 0x22, 0x7D, 0x0A]]
    (reaches_heardOnce _) (present_heardOnce _) (by decide)
    (by simpa [accented] using parseNamed_accented)).2 <| by
      simp only [List.forall_mem_cons, List.not_mem_nil, false_implies, implies_true, and_true]
      exact ⟨⟨"\x7b\"na".toList, by decide⟩, ⟨"me\":\"é\"\x7d\n".toList, by decide⟩⟩

/-- The two bytes of the character come in two chunks. -/
theorem search_loses_character :
    ∃ chunks : List (List UInt8), (handled [accented.json]).Reaches (heardOnce accented.json) (.pure ()) ∧
      (∀ x ∈ heardOnce accented.json, clientPresent x.1 x.2) ∧ chunks.flatten = bytesOf (heardOnce accented.json) ∧
      (∀ chunk ∈ chunks, chunk ≠ []) ∧ (∀ j, accented.json.Garbled j → parseNamed j.stringify = some j.value) ∧
      search parseNamed chunks = ⟨[named "\uFFFD\uFFFD"], false⟩ ∧ named "\uFFFD\uFFFD" ≠ accented.json :=
  ⟨[[0x7B, 0x22, 0x6E, 0x61, 0x6D, 0x65, 0x22, 0x3A, 0x22, 0xC3], [0xA9, 0x22, 0x7D, 0x0A]], reaches_heardOnce _,
    present_heardOnce _, by decide, by simp, parseNamed_accented, rfl, by simp [accented, named]⟩

end Provisioning
