import PaymentSystem.Service.Logging

/-! What can be read back from the log. Requests write into it in any order and with any
texts, some of them the client's own; each line is one record all the same. -/
namespace PaymentSystem
open JsonText (Json Printable linesText loadsLines loadsLinesText dumpsPrints)

def readLog (text : List Char) : List Json := (loadsLines text).filterMap id

def entriesOf (requestId : String) (entries : List Json) : List Json :=
  entries.filter (fun entry => entry.member? "request_id" |>.any (fun value => value.string? == some requestId))

section
variable {appName : String} {emitted : List Emitted}

theorem logLines : logText appName emitted = linesText (emitted.map (Emitted.entry appName)) := by
  rw [logText,linesText,List.flatMap_map]
  refine List.flatMap_congr ?_
  intro e _
  rw [Emitted.emit,JSONFormatter.format,JsonText.dumps,String.toList_ofList]
  rfl

theorem logReads : readLog (logText appName emitted) = emitted.map (Emitted.entry appName) := by
  rw [readLog,logLines,loadsLinesText,List.filterMap_map,Function.id_comp,List.filterMap_some]

theorem entryRequest (e : Emitted) :
    (e.entry appName).member? "request_id" = some (.string e.context.requestIdCtx) := by
  simp [Emitted.entry,JSONFormatter.logEntry,Json.member?]

end

theorem logReadsBack (appName : String) (emitted : List Emitted) :
    loadsLines (logText appName emitted) = emitted.map (fun e => some (e.entry appName)) ∧
      (∀ requestId, entriesOf requestId (readLog (logText appName emitted)) =
        (emitted.filter (fun e => e.context.requestIdCtx == requestId)).map (Emitted.entry appName)) ∧
      ∀ c ∈ logText appName emitted, c = '\n' ∨ Printable c := by
  refine ⟨?_,?_,?_⟩
  · rw [logLines,loadsLinesText,List.map_map]
    rfl
  · intro requestId
    have same : (fun entry : Json => (entry.member? "request_id").any (fun value => value.string? == some requestId)) ∘
        Emitted.entry appName = fun e => e.context.requestIdCtx == requestId := by
      funext e
      simp [entryRequest,Json.string?]
    rw [logReads,entriesOf,List.filter_map,same]
  · intro c here
    obtain ⟨e,_,inside⟩ := List.mem_flatMap.mp here
    rcases List.mem_append.mp inside with text | ended
    · rw [JSONFormatter.format,JsonText.dumps,String.toList_ofList] at text
      exact .inr (dumpsPrints _ c text)
    · exact .inl (List.mem_singleton.mp ended)

end PaymentSystem
