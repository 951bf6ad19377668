import QueryEditor.Text.Basic

/-!
# Prompts

The interpreter shows its prompt when it waits for a request. A line of output is a prompt when it
ends with it, white space around the line aside.
-/

namespace QueryEditor

/-- The line ends with the prompt. -/
def isPrompt (line prompt : Text) : Bool := prompt.isSuffixOf line.trim

end QueryEditor
