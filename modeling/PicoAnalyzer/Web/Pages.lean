import PicoAnalyzer.Web.LogTable

/-!
# The pages

`access_page`, `get_alert_data_sd` and `get_content_type`, and the choice among
them that `http_server_send_data` makes from the request path.
-/

namespace PicoAnalyzer

open CLib

/-- Room for the buttons of a page. -/
def MAX_HTML_STRING_LENGTH : Nat := 300

/-- `get_default_data`. -/
def getDefaultData : Text :=
  lit ("<!DOCTYPE html><html><head><title>Default HTML Page </title></head><body>" ++
    "<h1>Default HTML Page</h1></body></html>")

/-! ## The alert page -/

/-- The loop of `get_alert_data_sd`: the rows, absent when they do not fit the buffer. `html` is
`concatenated_html` up to `total_length`. -/
def alertRows : List Text → Nat → Text → Option Text
  | [], _, html => some html
  | line :: lines, count, html =>
    let row := sprintf "<tr><td>%d</td><td>%s</td></tr>" [.int (count + 1 : Nat), .str line]
    if BUF_SIZE - html.length ≤ row.length then none
    else alertRows lines (count + 1) (html ++ row)

/-- `get_alert_data_sd`. The result is absent for `NULL`. -/
def getAlertDataSd (env : Env) : HeapM (Option Text) := do
  match ← readSdCard env (lit "alert.txt") with
  | none => return some getDefaultData
  | some alertOutput =>
    match ← readSdCard env (lit "webpage2.html") with
    | none => return some getDefaultData
    | some htmlString =>
      match ← malloc env.mallocOk BUF_SIZE with
      | none => return none
      | some concatenated =>
        match alertRows (strtok (ch '\n') alertOutput.text) 0 [] with
        | none =>
          free concatenated
          return none
        | some rows =>
          let remaining := lit "</tbody></table></div></div></div></body></html>"
          let finalLength := rows.length + htmlString.text.length + remaining.length + 1
          match ← malloc env.mallocOk finalLength with
          | none =>
            free concatenated
            return none
          | some _ =>
            -- without a row nothing was ever written to `concatenated_html`
            if rows = [] then throw .uninitialised
            free concatenated
            return some (snprintf finalLength (htmlString.text ++ rows ++ remaining))

/-! ## The log pages -/

/-- `sets_array[i]`. -/
def readSlot (slots : List (Option Str)) (i : Int) : CResult Str :=
  if 0 ≤ i ∧ i < slots.length then readLocal (slots[i.toNat]?.join) else .error .outOfBounds

/-- The buttons below the table. -/
def pageButtons (currentPage maxPage : Int) : Text :=
  sprintf ("<div class='d-flex justify-content-center mt-3'><a href='page_%d.html' " ++
    "class='btn btn-primary ml-2'>Previous</a><div class='align-self-center'> %d/%d </div>" ++
    "<a href='page_%d.html' class='btn btn-primary ml-2'>Next</a></div>")
    [.int (currentPage - 1), .int currentPage, .int maxPage, .int (currentPage + 1)]

/-- `access_page`. The result is absent for `NULL`. `max_page` is computed from the size of a
pointer, which is 4. -/
def accessPage (env : Env) (currentPage : Int) : HeapM (Option Text) := do
  match ← readSdCard env (lit "webpage.html") with
  | none => return some getDefaultData
  | some htmlString =>
    match ← getDataSd env with
    | none => throw .nullPointer
    | some table =>
      let maxPage := 4 - 1
      if currentPage = -2147483648 then throw .intOverflow
      let linesOfLogs ← readSlot table.slots (currentPage - 1)
      free table.block
      let htmlTableTags := lit "</tbody></table>"
      let htmlPageBtn := snprintf MAX_HTML_STRING_LENGTH (pageButtons currentPage maxPage)
      let remaining := lit "</div></div></div></body></html>"
      let finalLength := linesOfLogs.text.length + htmlString.text.length + htmlTableTags.length +
        htmlPageBtn.length + remaining.length + 1
      match ← malloc env.mallocOk finalLength with
      | none =>
        free linesOfLogs.block
        return none
      | some _ =>
        free htmlString.block
        free linesOfLogs.block
        return some (snprintf finalLength
          (htmlString.text ++ linesOfLogs.text ++ htmlTableTags ++ htmlPageBtn ++ remaining))

/-! ## The route -/

/-- `get_content_type`. -/
def getContentType (filePath : Text) : Text :=
  if filePath = lit "/" then lit "text/html"
  else match strrchr (ch '.') filePath with
    | some dot =>
      let extension := dot.drop 1
      if extension = lit "html" then lit "text/html"
      else if extension = lit "css" then lit "text/css"
      else if extension = lit "js" then lit "application/javascript"
      else if extension = lit "jpg" ∨ extension = lit "jpeg" then lit "image/jpeg"
      else if extension = lit "png" then lit "image/png"
      else if extension = lit "gif" then lit "image/gif"
      else if extension = lit "pdf" then lit "application/pdf"
      else lit "application/octet-stream"
    | none => lit "application/octet-stream"

/-- The assignment to `response_data` in `http_server_send_data`; absent when no branch is taken. -/
def responseData (env : Env) (path : Text) : HeapM (Option (Option Text)) := do
  let searchPage := lit "/page_"
  if path = lit "/" then return some (← accessPage env 1)
  else if searchPage <+: path ∧ (strstr (lit ".html") path).isSome then
    let pageNumber ← atoi (path.drop searchPage.length)
    return some (← accessPage env pageNumber)
  else if path = lit "/alert_page.html" then return some (← getAlertDataSd env)
  else return none

/-- The text of `response_data` where it is taken as a string: it must have been assigned, and not
be `NULL`. -/
def pageBody (env : Env) (path : Text) : HeapM Text := do
  match ← readLocal (← responseData env path) with
  | some body => return body
  | none => throw .nullPointer

/-- The HTTP response, cut at the size of its buffer. -/
def response (contentType body : Text) : Text :=
  snprintf BUF_SIZE (sprintf
    "HTTP/1.1 %s\r\nContent-Type: %s\r\nContent-Length: %d\r\n\r\n%s"
    [.str (lit "200 OK"), .str contentType, .int body.length, .str body])

end PicoAnalyzer
